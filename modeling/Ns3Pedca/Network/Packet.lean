import Ns3Pedca.Wifi.WifiMacHeader

/-!
# Packets

The operations of `Packet` on the bytes it carries. Sizes are numbers of 32 bits, and
`createFragment` subtracts them as such, so that a fragment which would end behind the packet
is empty.
-/

namespace Ns3Pedca.Packet

/-- `GetSize`. -/
def getSize (p : Packet) : UInt32 :=
  .ofNat p.length

/-- `RemoveAtStart`. -/
def removeAtStart (p : Packet) (size : UInt32) : Packet :=
  p.drop size.toNat

/-- `RemoveAtEnd`. -/
def removeAtEnd (p : Packet) (size : UInt32) : Packet :=
  p.take (p.length - size.toNat)

/-- `CreateFragment`. -/
def createFragment (p : Packet) (start length : UInt32) : Packet :=
  removeAtEnd (removeAtStart p start) (getSize p - (start + length))

/-- A fragment that lies in the packet. -/
theorem createFragment_eq {p : Packet} {start length : UInt32}
    (h : start.toNat + length.toNat ≤ p.length) (hp : p.length < 2 ^ 32) :
    createFragment p start length = (p.drop start.toNat).take length.toNat := by
  have hsum : (start + length).toNat = start.toNat + length.toNat := by
    rw [UInt32.toNat_add]
    exact Nat.mod_eq_of_lt (by omega)
  have hsize : (getSize p).toNat = p.length := UInt32.toNat_ofNat_of_lt' hp
  have hend : (getSize p - (start + length)).toNat = p.length - (start.toNat + length.toNat) := by
    rw [UInt32.toNat_sub_of_le _ _ (UInt32.le_iff_toNat_le.2 (by omega)), hsize, hsum]
  rw [createFragment, removeAtEnd, hend, removeAtStart, List.length_drop]
  congr 1
  omega

end Ns3Pedca.Packet
