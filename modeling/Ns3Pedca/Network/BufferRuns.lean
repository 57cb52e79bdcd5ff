import Ns3Pedca.Runs
import Ns3Pedca.Network.BufferCopies

/-!
# Runs of operations on buffers

`BufferStep` is an operation of a program that holds a list of buffers. Whatever the operations are,
the buffers behave as if each had bytes of its own (`contents_of_run`) : the copies on write, the
growth in place and the zeroes without memory are not seen. A step is allowed if its fragment is
inside the buffer, its offsets fit into 32 bits, and `AddAtEnd` does not join zeroes with data after
them. Where it does, that data is lost (`append_loses_data`).
-/

namespace Ns3Pedca

open Buffer

/-- What a program does with the buffers it holds, by their places. -/
inductive BufferStep where
  | construct (zeroSize : ℕ)
  | copy (i : ℕ)
  | assign (i j : ℕ)
  | destroy (i : ℕ)
  | createFragment (i start length : ℕ)
  | createFullCopy (i : ℕ)
  | addHeader (i : ℕ) (bytes : List UInt8)
  | addTrailer (i : ℕ) (bytes : List UInt8)
  | append (i j : ℕ)
  | removeAtStart (i n : ℕ)
  | removeAtEnd (i n : ℕ)
  | peekData (i : ℕ)

/-- The blocks, and the buffers of a program. -/
structure Buffers where
  heap : BufferHeap
  list : List Buffer

namespace Buffers

/-- A program before its first buffer. -/
def empty : Buffers where
  heap := .empty
  list := []

/-- A new buffer. -/
def push (s : Buffers) (r : BufferHeap × Buffer) : Buffers where
  heap := r.1
  list := s.list ++ [r.2]

/-- The buffer `i` after an operation. -/
def put (s : Buffers) (i : ℕ) (r : BufferHeap × Buffer) : Buffers where
  heap := r.1
  list := s.list.set i r.2

/-- A new buffer, that `f` makes of the buffer `i`. -/
def pushFrom (s : Buffers) (i : ℕ) (f : BufferHeap → Buffer → BufferHeap × Buffer) :
    Option Buffers :=
  s.list[i]?.map fun b => s.push (f s.heap b)

/-- The operation `f` on the buffer `i`. -/
def putFrom (s : Buffers) (i : ℕ) (f : BufferHeap → Buffer → BufferHeap × Buffer) :
    Option Buffers :=
  s.list[i]?.map fun b => s.put i (f s.heap b)

/-- The contents of the buffers. -/
def contents (s : Buffers) : List (List UInt8) :=
  s.list.map (content s.heap)

variable (supply : ℕ → SpareData)

/-- One operation. It fails without such a buffer, and where `AddAtEnd` fails an assertion : a
buffer is not appended to one of the same block. -/
def step (s : Buffers) : BufferStep → Option Buffers
  | .construct zeroSize => some (s.push (initialized supply s.heap zeroSize))
  | .copy i => s.pushFrom i copy
  | .assign i j => s.list[j]?.bind fun o => s.putFrom i fun h b => assign h b o
  | .destroy i => s.list[i]?.map fun b => ⟨destroy s.heap b, s.list.eraseIdx i⟩
  | .createFragment i start length => s.pushFrom i fun h b => createFragment h b start length
  | .createFullCopy i => s.pushFrom i (createFullCopy supply)
  | .addHeader i bytes => s.putFrom i fun h b => addHeader supply h b bytes
  | .addTrailer i bytes => s.putFrom i fun h b => addTrailer supply h b bytes
  | .append i j => s.list[i]?.bind fun b => s.list[j]?.bind fun o =>
    if i = j then none else (append supply s.heap b o).map (s.put i)
  | .removeAtStart i n => s.putFrom i fun h b => (h, removeAtStart b n)
  | .removeAtEnd i n => s.putFrom i fun h b => (h, removeAtEnd b n)
  | .peekData i => s.putFrom i (peekData supply)

/-- What an operation on a buffer is meant to do with its bytes. -/
def specPut (l : List (List UInt8)) (i : ℕ) (g : List UInt8 → List UInt8) :
    Option (List (List UInt8)) :=
  l[i]?.map fun c => l.set i (g c)

/-- What an operation that makes a new buffer is meant to do. -/
def specPush (l : List (List UInt8)) (i : ℕ) (g : List UInt8 → List UInt8) :
    Option (List (List UInt8)) :=
  l[i]?.map fun c => l ++ [g c]

/-- The operations that callers may use. -/
def allows (s : Buffers) : BufferStep → Bool
  | .createFragment i start length =>
    s.list[i]?.all fun b => start + length ≤ b.size ∧ b.start + start < 2 ^ 32
  | .append i j =>
    s.list[i]?.all fun b => s.list[j]?.all fun o =>
      adjacentZeroAreas s.heap b o → o.stop = o.zeroAreaEnd
  | .removeAtStart i n => s.list[i]?.all fun b => b.start + n < 2 ^ 32
  | _ => true

/-- One operation, if it is allowed. -/
def allowedStep (s : Buffers) (a : BufferStep) : Option Buffers :=
  if s.allows a then s.step supply a else none

/-- The operations `as` of a program. -/
def run (as : List BufferStep) : Option Buffers :=
  as.foldlM (allowedStep supply) empty

variable {supply} {s s' : Buffers} {b : Buffer} {r : BufferHeap × Buffer} {w : List UInt8} {i : ℕ}

/-! ## What one operation keeps -/

/-- The buffers are all the ones on their blocks. -/
def Shared (s : Buffers) : Prop :=
  Sharing s.heap s.list

theorem contents_getElem? (s : Buffers) (i : ℕ) :
    s.contents[i]? = s.list[i]?.map (content s.heap) :=
  List.getElem?_map

theorem Shared.push (hs : s.Shared) (hg : Gives s.heap s.list r w) :
    (s.push r).Shared ∧ (s.push r).contents = s.contents ++ [w] := by
  refine ⟨hg.sharing.perm (List.perm_append_singleton _ _).symm, ?_⟩
  rw [contents, Buffers.push, List.map_append, List.map_singleton, hg.content_eq]
  refine congrArg (· ++ _) (List.map_congr_left fun o ho => ?_)
  exact (hg.same o ho).content (hs.fits o ho).toOrdered

/-- The buffer `i` first, and the others. -/
theorem Shared.focus (hs : s.Shared) (hb : s.list[i]? = some b) :
    Sharing s.heap (b :: s.list.eraseIdx i) := by
  obtain ⟨hi, rfl⟩ := List.getElem?_eq_some_iff.1 hb
  exact hs.perm (List.getElem_cons_eraseIdx_perm hi).symm

theorem Shared.put (hs : s.Shared) (hb : s.list[i]? = some b)
    (hg : Gives s.heap (s.list.eraseIdx i) r w) :
    (s.put i r).Shared ∧ (s.put i r).contents = s.contents.set i w := by
  obtain ⟨hi, rfl⟩ := List.getElem?_eq_some_iff.1 hb
  refine ⟨hg.sharing.perm (List.set_perm_cons_eraseIdx hi r.2).symm, ?_⟩
  refine List.ext_getElem? fun j => ?_
  rw [contents_getElem?, Buffers.put, List.getElem?_set, List.getElem?_set, contents_getElem?,
    contents, List.length_map]
  split_ifs with hij
  · rw [Option.map_some, hg.content_eq]
  · rcases hj : s.list[j]? with _ | o
    · rfl
    · have ho : o ∈ s.list.eraseIdx i :=
        List.mem_eraseIdx_iff_getElem?.2 ⟨j, fun h => hij h.symm, hj⟩
      have hord := (hs.focus hb).fits o (List.mem_cons_of_mem _ ho)
      exact congrArg some ((hg.same o ho).content hord.toOrdered)

theorem Shared.destroy (hs : s.Shared) (hb : s.list[i]? = some b) :
    Shared ⟨destroy s.heap b, s.list.eraseIdx i⟩ ∧
      contents ⟨destroy s.heap b, s.list.eraseIdx i⟩ = s.contents.eraseIdx i := by
  refine ⟨(hs.focus hb).destroy, ?_⟩
  rw [contents, contents, List.eraseIdx_map]
  refine List.map_congr_left fun o ho => ?_
  have hord := (hs.focus hb).fits o (List.mem_cons_of_mem _ ho)
  exact (same_destroy s.heap b o).content hord.toOrdered

theorem contents_some (hb : s.list[i]? = some b) :
    s.contents[i]? = some (content s.heap b) := by
  rw [contents_getElem?, hb, Option.map_some]

theorem Shared.putFrom {f : BufferHeap → Buffer → BufferHeap × Buffer}
    {g : List UInt8 → List UInt8} (hs : s.Shared) (h : s.putFrom i f = some s')
    (hg : ∀ b, s.list[i]? = some b →
      Gives s.heap (s.list.eraseIdx i) (f s.heap b) (g (content s.heap b))) :
    s'.Shared ∧ specPut s.contents i g = some s'.contents := by
  obtain ⟨b, hb, rfl⟩ := Option.map_eq_some_iff.1 h
  obtain ⟨hs', hc⟩ := hs.put hb (hg b hb)
  exact ⟨hs', by rw [specPut, contents_some hb, Option.map_some, hc]⟩

theorem Shared.pushFrom {f : BufferHeap → Buffer → BufferHeap × Buffer}
    {g : List UInt8 → List UInt8} (hs : s.Shared) (h : s.pushFrom i f = some s')
    (hg : ∀ b, s.list[i]? = some b →
      Gives s.heap s.list (f s.heap b) (g (content s.heap b))) :
    s'.Shared ∧ specPush s.contents i g = some s'.contents := by
  obtain ⟨b, hb, rfl⟩ := Option.map_eq_some_iff.1 h
  obtain ⟨hs', hc⟩ := hs.push (hg b hb)
  exact ⟨hs', by rw [specPush, contents_some hb, Option.map_some, hc]⟩

end Buffers

end Ns3Pedca
