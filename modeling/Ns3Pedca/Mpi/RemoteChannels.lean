import Ns3Pedca.Mpi.LogicalProcess

/-!
# Remote channels and bundles

A remote channel connects a device of one rank with a device of another one. Each simulator of
`src/mpi` collects the remote channels of its rank before it runs, in `CalculateLookAhead` : the
null message simulator into a bundle for each remote rank, with the least delay of its channels,
the granted time window simulator into the least delay of all of them.
-/

namespace Ns3Pedca

theorem foldl_min_le_init (l : List ℕ) (a : ℕ) : l.foldl min a ≤ a := by
  induction l generalizing a with
  | nil => exact le_rfl
  | cons y l ih => exact (ih _).trans (min_le_left a y)

theorem foldl_min_le {l : List ℕ} {x : ℕ} (h : x ∈ l) (a : ℕ) : l.foldl min a ≤ x := by
  induction l generalizing a with
  | nil => cases h
  | cons y l ih =>
    rcases List.mem_cons.1 h with rfl | h
    · exact (foldl_min_le_init l (min a x)).trans (min_le_right a x)
    · exact ih h (min a y)

theorem le_foldl_min {l : List ℕ} {x a : ℕ} (ha : x ≤ a) (h : ∀ y ∈ l, x ≤ y) :
    x ≤ l.foldl min a := by
  induction l generalizing a with
  | nil => exact ha
  | cons y l ih =>
    obtain ⟨hy, h⟩ := List.forall_mem_cons.1 h
    exact ih (le_min ha hy) h

theorem eq_singleton_of_nodup {α : Type} {l : List α} {a : α} (h : l.Nodup) (ha : a ∈ l)
    (hall : ∀ b ∈ l, b = a) : l = [a] := by
  rw [List.eq_replicate_of_mem hall] at h ha ⊢
  have hlen : l.length = 1 := by
    have hle := List.nodup_replicate.1 h
    have hpos : 0 < l.length := Nat.pos_of_ne_zero fun h0 => by simp [h0] at ha
    omega
  rw [hlen]
  rfl

/-- The remote channels : for each rank the remote rank and the delay of every remote channel of
its devices. A channel has two ends with one delay. `maxTime` is `GetMaximumSimulationTime`. -/
structure RemoteChannels (ι : Type) where
  channels : ι → List (ι × ℕ)
  maxTime : ℕ
  two_ended : ∀ i j d, (j, d) ∈ channels i → (i, d) ∈ channels j

/-- `g_remoteChannelBundles` of a rank : its keys, and `m_delay` of the bundles. -/
structure ChannelBundles (ι : Type) where
  ranks : List ι
  delay : ι → ℕ

namespace ChannelBundles

variable {ι : Type} [DecidableEq ι]

/-- `RemoteChannelBundleManager::Find` or `Add`, then `RemoteChannelBundle::AddChannel`. -/
def addChannel (b : ChannelBundles ι) (channel : ι × ℕ) : ChannelBundles ι where
  ranks := if channel.1 ∈ b.ranks then b.ranks else b.ranks ++ [channel.1]
  delay := Function.update b.delay channel.1 (min (b.delay channel.1) channel.2)

theorem mem_ranks_addChannel {b : ChannelBundles ι} {channel : ι × ℕ} {j : ι} :
    j ∈ (b.addChannel channel).ranks ↔ j = channel.1 ∨ j ∈ b.ranks := by
  unfold addChannel
  split_ifs with h
  · exact ⟨.inr, fun h' => h'.elim (fun h'' => h'' ▸ h) id⟩
  · simp [or_comm]

theorem nodup_addChannel {b : ChannelBundles ι} (h : b.ranks.Nodup) (channel : ι × ℕ) :
    (b.addChannel channel).ranks.Nodup := by
  unfold addChannel
  dsimp only
  split_ifs with hmem
  · exact h
  · refine List.nodup_append.2 ⟨h, List.nodup_singleton _, fun a ha b hb => ?_⟩
    rintro rfl
    exact hmem (List.mem_singleton.1 hb ▸ ha)

theorem nodup_foldl (l : List (ι × ℕ)) {b : ChannelBundles ι} (h : b.ranks.Nodup) :
    (l.foldl addChannel b).ranks.Nodup := by
  induction l generalizing b with
  | nil => exact h
  | cons c l ih => exact ih (nodup_addChannel h c)

theorem delay_addChannel_le (b : ChannelBundles ι) (channel : ι × ℕ) (j : ι) :
    (b.addChannel channel).delay j ≤ b.delay j := by
  by_cases h : j = channel.1
  · subst h
    simp [addChannel]
  · simp [addChannel, h]

theorem delay_addChannel_self (b : ChannelBundles ι) (channel : ι × ℕ) :
    (b.addChannel channel).delay channel.1 ≤ channel.2 := by
  simp [addChannel]

theorem delay_foldl_le (l : List (ι × ℕ)) (b : ChannelBundles ι) (j : ι) :
    (l.foldl addChannel b).delay j ≤ b.delay j := by
  induction l generalizing b with
  | nil => exact le_rfl
  | cons c l ih => exact (ih _).trans (delay_addChannel_le b c j)

theorem mem_ranks_foldl {l : List (ι × ℕ)} {b : ChannelBundles ι} {j : ι} :
    j ∈ (l.foldl addChannel b).ranks ↔ j ∈ b.ranks ∨ ∃ d, (j, d) ∈ l := by
  induction l generalizing b with
  | nil => simp
  | cons c l ih =>
    rw [List.foldl_cons, ih, mem_ranks_addChannel]
    constructor
    · rintro ((rfl | h) | ⟨d, h⟩)
      · exact .inr ⟨c.2, List.mem_cons_self⟩
      · exact .inl h
      · exact .inr ⟨d, List.mem_cons_of_mem c h⟩
    · rintro (h | ⟨d, h⟩)
      · exact .inl (.inr h)
      · rcases List.mem_cons.1 h with rfl | h
        · exact .inl (.inl rfl)
        · exact .inr ⟨d, h⟩

theorem delay_foldl_le_of_mem {l : List (ι × ℕ)} {b : ChannelBundles ι} {j : ι} {d : ℕ}
    (h : (j, d) ∈ l) : (l.foldl addChannel b).delay j ≤ d := by
  induction l generalizing b with
  | nil => cases h
  | cons c l ih =>
    rcases List.mem_cons.1 h with rfl | h
    · exact (delay_foldl_le l _ j).trans (delay_addChannel_self b (j, d))
    · exact ih h

end ChannelBundles

namespace RemoteChannels

variable {ι : Type} [DecidableEq ι] (net : RemoteChannels ι)

/-- `NullMessageSimulatorImpl::CalculateLookAhead` of the rank `i` : a new bundle has the delay
`Time::Max()`. -/
def bundles (i : ι) : ChannelBundles ι :=
  (net.channels i).foldl ChannelBundles.addChannel ⟨[], fun _ => net.maxTime⟩

/-- The ranks that `i` has a bundle for. -/
def ranks (i : ι) : List ι :=
  (net.bundles i).ranks

/-- `GetDelay` of the bundle of `i` for `j`. -/
def delay (i j : ι) : ℕ :=
  (net.bundles i).delay j

variable {net}

theorem mem_ranks {i j : ι} : j ∈ net.ranks i ↔ ∃ d, (j, d) ∈ net.channels i := by
  rw [ranks, bundles, ChannelBundles.mem_ranks_foldl]
  simp

theorem mem_ranks_comm {i j : ι} : j ∈ net.ranks i ↔ i ∈ net.ranks j := by
  rw [mem_ranks, mem_ranks]
  exact ⟨fun ⟨d, h⟩ => ⟨d, net.two_ended i j d h⟩, fun ⟨d, h⟩ => ⟨d, net.two_ended j i d h⟩⟩

theorem nodup_ranks (net : RemoteChannels ι) (i : ι) : (net.ranks i).Nodup :=
  ChannelBundles.nodup_foldl _ List.nodup_nil

/-- No channel of a bundle is faster than the bundle. -/
theorem delay_le {i j : ι} {d : ℕ} (h : (j, d) ∈ net.channels i) : net.delay i j ≤ d :=
  ChannelBundles.delay_foldl_le_of_mem h

end RemoteChannels

theorem twoRankChannels_two_ended (i j : Bool) (d : ℕ) (h : (j, d) ∈ [(!i, 10)]) :
    (i, d) ∈ [(!j, 10)] := by
  rw [List.mem_singleton, Prod.mk.injEq] at h ⊢
  exact ⟨by rw [h.1, Bool.not_not], h.2⟩

/-- Two ranks with one remote channel. -/
def twoRankChannels : RemoteChannels Bool where
  channels := fun i => [(!i, 10)]
  maxTime := 1000
  two_ended := twoRankChannels_two_ended

end Ns3Pedca
