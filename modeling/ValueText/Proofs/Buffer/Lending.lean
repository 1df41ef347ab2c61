/-
  ValueText.Proofs.Buffer.Lending — pools, guards and callers together.

  Deeds are done one after another with builders of any origin: a caller takes builders
  out of pools or makes them, disposes them, exchanges them with those of guards, returns
  them to one pool or another, releases guards or detaches them.  A pool is a queue all
  the same: what waits in it is what it has accepted and not handed out since.

  Main results:

    • `sound_run`        every state has its builders in order, and its guards;
    • `deed_asks_ok`     a pool hands out a builder to everybody who asks;
    • `deed_returns_ok`  it takes back what it accepts, and the rest is disposed;
    • `queue_run`        what waits follows from what came and what went;
    • `pool_in_order`    all of it, for every pool, at any time;
    • `rent_eq_deeds`    renting for one text is three deeds.
-/
import Mathlib.Logic.Equiv.Basic
import ValueText.Proofs.Buffer.Pooling

namespace ValueText

namespace Workspace

variable {w w' : Workspace} {b c : String}

/-! ## §1. Exchanging builders. -/

theorem exchange_eq_ok (h : w.exchange b c = .ok w') : ∃ i j, w.builderNames.get? b = some i ∧
    w.builderNames.get? c = some j ∧
    w' = { w with builderNames := (w.builderNames.set b j).set c i } := by
  obtain ⟨i, hi, h⟩ := ok_of_bind h
  obtain ⟨j, hj, h⟩ := ok_of_bind h
  cases h
  exact ⟨i, j, builderId_eq_ok hi, builderId_eq_ok hj, rfl⟩

/-- A name has the builder that the other name had. -/
theorem get?_exchange (h : w.exchange b c = .ok w') (n : String) :
    w'.builderNames.get? n = w.builderNames.get? (Equiv.swap b c n) := by
  obtain ⟨i, j, hi, hj, rfl⟩ := exchange_eq_ok h
  dsimp only
  rw [Table.get?_set, Table.get?_set, Equiv.swap_apply_def]
  by_cases hc : n = c
  · subst hc
    rw [if_pos rfl, ← hi]
    by_cases hb : n = b
    · rw [if_pos hb, hb]
    · rw [if_neg hb, if_pos rfl]
  · rw [if_neg (Ne.symm hc)]
    by_cases hb : n = b
    · rw [if_pos hb.symm, if_pos hb, hj]
    · rw [if_neg (Ne.symm hb), if_neg hb, if_neg hc]

/-- A builder is given a new name and returned by it. -/
theorem step_giveBack_nameBuilder {p : String} {P : Pool BuilderId}
    (hp : w.poolNames.get? p = some P) (hb : w.builderNames.get? b = none) (id : BuilderId) :
    (w.nameBuilder b id).step (.giveBack p b) = .ok (.done, w.giveBackTo p P id) := by
  have hnamed : w.nameBuilder b id = { w with builderNames := w.builderNames.set b id } := by
    simp only [nameBuilder, hb]
  have hunnamed : (w.nameBuilder b id).unnameBuilder b = w := by
    simp only [hnamed, unnameBuilder, Table.erase_set hb]
  have hpool : (w.nameBuilder b id).pool p = .ok P := by
    rw [pool, poolNames_nameBuilder, hp]
  have hid : (w.nameBuilder b id).builderId b = .ok id := by
    rw [builderId, get?_nameBuilder]
  simp only [step, bind, Except.bind, hpool, hid, hunnamed]

theorem Owned.exchange (h : w.Owned) (he : w.exchange b c = .ok w') : w'.Owned := by
  have hget := get?_exchange he
  obtain ⟨i, j, -, -, rfl⟩ := exchange_eq_ok he
  refine ⟨fun n m id hn hm => ?_, fun n id hn => ?_, h.pooled, h.nodup, fun n id hn => ?_, h.ready⟩
  · rw [hget] at hn hm
    exact (Equiv.swap b c).injective (h.named _ _ id hn hm)
  · rw [hget] at hn
    exact h.apart _ id hn
  · rw [hget] at hn
    exact h.there _ id hn

end Workspace

namespace Lending

open Workspace

variable {l l' : Lending} {d : Deed} {p g b : String} {P : Pool BuilderId} {s : Step} {r : Reply}
  {guards : Table String String}

/-! ## §2. The state of all names. -/

/-- The builders are in order, each guard has one, and the pool is there that it goes back to. -/
structure Sound (l : Lending) : Prop where
  consistent : l.workspace.Consistent
  owned : l.workspace.Owned
  capped : l.workspace.Capped
  named : ∀ g, l.isGuard g = true → (l.workspace.builderNames.get? g).isSome
  pooled : ∀ g p, l.guards.get? g = some p → (l.workspace.poolNames.get? p).isSome

theorem carry_eq_ok (h : l.carry s guards = .ok (r, l')) :
    l.workspace.step s = .ok (r, l'.workspace) ∧ l'.guards = guards := by
  unfold carry at h
  split at h
  · next hs => cases h; exact ⟨hs, rfl⟩
  · cases h

theorem carry_of_step {w : Workspace} (h : l.workspace.step s = .ok (r, w)) :
    l.carry s guards = .ok (r, ⟨w, guards⟩) := by
  rw [carry, h]

/-- A builder that is taken comes out of a pool, and has the name. -/
theorem isSome_of_take {w w' : Workspace} (h : w.step (.take p b) = .ok (r, w')) :
    (w.poolNames.get? p).isSome ∧ (w'.builderNames.get? b).isSome := by
  obtain ⟨pool, hpool, h⟩ := ok_of_bind h
  obtain rfl := congrArg Prod.snd (Except.ok.inj h)
  rw [get?_nameBuilder, pool_eq_ok hpool]
  exact ⟨rfl, rfl⟩

/-- A step is run; guards that it does not name are guards as before. -/
theorem Sound.carry (h : l.Sound) (hc : l.carry s guards = .ok (r, l'))
    (hnamed : ∀ g, (guards.get? g).isSome → s.renames? = some g →
      (l'.workspace.builderNames.get? g).isSome)
    (hold : ∀ g p, guards.get? g = some p →
      l.guards.get? g = some p ∨ s.renames? = some g ∧ (l.workspace.poolNames.get? p).isSome) :
    l'.Sound := by
  obtain ⟨hs, hguards⟩ := carry_eq_ok hc
  have hspares := spares_step hs
  have hafter := after_of_step hs
  refine ⟨hafter ▸ h.consistent.after s, (owned_step h.owned h.consistent hs).1, h.capped.step hs,
    fun g hg => ?_, fun g p hg => ?_⟩
  · rw [isGuard, Table.contains, hguards] at hg
    by_cases hn : s.renames? = some g
    · exact hnamed g hg hn
    · obtain ⟨p, hp⟩ := Option.isSome_iff_exists.mp hg
      rw [hspares.names g hn]
      rcases hold g p hp with hguard | ⟨he, -⟩
      · exact h.named g (Option.isSome_iff_exists.mpr ⟨p, hguard⟩)
      · exact absurd he hn
  · rw [hguards] at hg
    refine hspares.lasting p ?_
    rcases hold g p hg with hguard | ⟨-, hp⟩
    · exact h.pooled g p hguard
    · exact hp

/-- A step that is admitted names no guard. -/
theorem not_isGuard_of_admits (h : l.admits s = true) (hs : s.renames? = some b) :
    l.isGuard b = false := by
  simp only [admits, hs, Option.any_some, Bool.and_eq_true, Bool.not_eq_true'] at h
  exact h.1

/-- **A deed leaves the builders and the guards in order.** -/
theorem Sound.deed (h : l.Sound) (hd : l.deed d = .ok (r, l')) : l'.Sound := by
  cases d with
  | step s =>
      simp only [Lending.deed] at hd
      split at hd
      · next ha =>
          refine h.carry hd (fun g hg hs => ?_) fun g p hg => .inl hg
          have hfree := not_isGuard_of_admits ha hs
          rw [isGuard, Table.contains, hg] at hfree
          cases hfree
      · cases hd
  | rent p g =>
      simp only [Lending.deed] at hd
      split at hd
      · cases hd
      · obtain ⟨hpool, hname⟩ := isSome_of_take (carry_eq_ok hd).1
        refine h.carry hd (fun g' _ hg' => ?_) fun g' q hg' => ?_
        · cases hg'
          exact hname
        · rw [Table.get?_set] at hg'
          split at hg'
          · next he =>
              cases hg'
              exact .inr ⟨congrArg some he, hpool⟩
          · exact .inl hg'
  | release g =>
      simp only [Lending.deed] at hd
      split at hd
      · refine h.carry hd (fun g' hg' hs => ?_) fun g' q hg' => ?_
        · cases hs
          rw [Table.get?_erase, if_pos rfl] at hg'
          cases hg'
        · exact .inl (Table.get?_of_erase hg')
      · cases hd
  | detach g =>
      simp only [Lending.deed] at hd
      split at hd
      · cases hd
        refine ⟨h.consistent, h.owned, h.capped, fun g' hg => ?_,
          fun g' p hg => h.pooled g' p (Table.get?_of_erase hg)⟩
        obtain ⟨p, hp⟩ := Option.isSome_iff_exists.mp hg
        exact h.named g' (Option.isSome_iff_exists.mpr ⟨p, Table.get?_of_erase hp⟩)
      · cases hd
  | exchange b c =>
      simp only [Lending.deed] at hd
      split at hd
      · next w he =>
          cases hd
          have howned := h.owned.exchange he
          obtain ⟨i, j, -, -, rfl⟩ := exchange_eq_ok he
          refine ⟨h.consistent, howned, h.capped, fun g hg => ?_, h.pooled⟩
          -- An exchanged name has a builder, and any other one has what it had.
          rw [Table.get?_set, Table.get?_set]
          split
          · rfl
          · split
            · rfl
            · exact h.named g hg
      · cases hd

theorem Sound.after (h : l.Sound) (d : Deed) : (l.after d).Sound := by
  unfold Lending.after
  split
  · next hd => exact h.deed hd
  · exact h

theorem Sound.run (h : l.Sound) (deeds : List Deed) : (l.run deeds).Sound := by
  induction deeds generalizing l with
  | nil => exact h
  | cons d rest ih => exact ih (h.after d)

/-- **Whatever is done, the builders and the guards are in order.** -/
theorem sound_run (deeds : List Deed) : (run {} deeds).Sound := by
  refine Sound.run ⟨consistent_run [], owned_run [], ?_, ?_, ?_⟩ deeds
  · intro p P hp
    cases hp
  · intro g hg
    cases hg
  · intro g p hg
    cases hg

/-! ## §3. Asking for a builder, and returning it. -/

/-- The pool that a deed asks for a builder, and the name that gets it. -/
def asks? (l : Lending) : Deed → Option (String × String)
  | .step (.take p b) | .rent p b => if l.isGuard b then none else some (p, b)
  | _ => none

/-- The pool that a deed returns a builder to, and the name that has it. -/
def returns? (l : Lending) : Deed → Option (String × String)
  | .step (.giveBack p b) => if l.owns b then some (p, b) else none
  | .release g => (l.guards.get? g).map fun p => (p, g)
  | _ => none

theorem asks?_eq_some : l.asks? d = some (p, b) ↔
    l.isGuard b = false ∧ (d = .step (.take p b) ∨ d = .rent p b) := by
  constructor
  · intro h
    unfold asks? at h
    split at h
    · split at h <;> cases h
      next hfree => exact ⟨Bool.eq_false_iff.mpr hfree, .inl rfl⟩
    · split at h <;> cases h
      next hfree => exact ⟨Bool.eq_false_iff.mpr hfree, .inr rfl⟩
    · cases h
  · rintro ⟨hfree, rfl | rfl⟩ <;> simp [asks?, hfree]

theorem returns?_eq_some : l.returns? d = some (p, b) ↔
    l.owns b = true ∧ d = .step (.giveBack p b) ∨ l.guards.get? b = some p ∧ d = .release b := by
  constructor
  · intro h
    unfold returns? at h
    split at h
    · split at h <;> cases h
      next howns => exact .inl ⟨howns, rfl⟩
    · obtain ⟨q, hq, he⟩ := Option.map_eq_some_iff.mp h
      cases he
      exact .inr ⟨hq, rfl⟩
    · cases h
  · rintro (⟨howns, rfl⟩ | ⟨hguard, rfl⟩)
    · simp [returns?, howns]
    · simp [returns?, hguard]

/-- **A pool hands out a builder to everybody who asks.** -/
theorem deed_asks_ok (h : l.Sound) (hd : l.asks? d = some (p, b))
    (hp : l.workspace.poolNames.get? p = some P) :
    ∃ l', l.deed d = .ok (.done, l') ∧ HandsOut p P b l.workspace l'.workspace := by
  obtain ⟨w', hstep, hout⟩ := step_take_ok h.owned hp b
  obtain ⟨hfree, rfl | rfl⟩ := asks?_eq_some.mp hd
  · have hadmits : l.admits (.take p b) = true := by simp [admits, Step.renames?, hfree]
    refine ⟨⟨w', l.guards⟩, ?_, hout⟩
    rw [Lending.deed, if_pos hadmits, carry_of_step hstep]
  · refine ⟨⟨w', l.guards.set b p⟩, ?_, hout⟩
    rw [Lending.deed, if_neg (by rw [hfree]; decide), carry_of_step hstep]

/-- A name whose builder is returned has one. -/
theorem Sound.isSome_of_returns (h : l.Sound) (hd : l.returns? d = some (p, b)) :
    (l.workspace.builderNames.get? b).isSome := by
  rcases returns?_eq_some.mp hd with ⟨howns, -⟩ | ⟨hguard, -⟩
  · exact (Bool.and_eq_true_iff.mp howns).1
  · exact h.named b (Option.isSome_iff_exists.mpr ⟨p, hguard⟩)

/-- **A pool takes every builder back**, and keeps or disposes it. -/
theorem deed_returns_ok (h : l.Sound) (hd : l.returns? d = some (p, b))
    (hp : l.workspace.poolNames.get? p = some P) :
    ∃ l' id b₀, l.deed d = .ok (.done, l') ∧ l.workspace.builderNames.get? b = some id ∧
      l.workspace.builderAt? id = some b₀ ∧ TakesBack p P b id b₀ l.workspace l'.workspace := by
  obtain ⟨id, hid⟩ := Option.isSome_iff_exists.mp (h.isSome_of_returns hd)
  obtain ⟨b₀, hb₀⟩ := h.owned.there b id hid
  obtain ⟨w', hstep, hback⟩ := step_giveBack_ok hp hid hb₀
  rcases returns?_eq_some.mp hd with ⟨howns, rfl⟩ | ⟨hguard, rfl⟩
  · have hfree : l.isGuard b = false := by
      simp only [owns, Bool.and_eq_true, Bool.not_eq_true'] at howns
      exact howns.2
    have hadmits : l.admits (.giveBack p b) = true := by simp [admits, Step.renames?, hfree]
    refine ⟨⟨w', l.guards⟩, id, b₀, ?_, hid, hb₀, hback⟩
    rw [Lending.deed, if_pos hadmits, carry_of_step hstep]
  · refine ⟨⟨w', l.guards.erase b⟩, id, b₀, ?_, hid, hb₀, hback⟩
    simp only [Lending.deed, hguard]
    exact carry_of_step hstep

/-- **A guard that is detached** leaves its builder to the caller. -/
theorem deed_detach_ok (h : l.Sound) (hg : l.isGuard g = true) :
    ∃ l', l.deed (.detach g) = .ok (.done, l') ∧ l'.workspace = l.workspace ∧ l'.owns g = true := by
  refine ⟨{ l with guards := l.guards.erase g }, ?_, rfl, ?_⟩
  · rw [Lending.deed, if_pos hg]
  · have hfree : isGuard { l with guards := l.guards.erase g } g = false := by
      rw [isGuard, Table.contains, Table.get?_erase, if_pos rfl]
      rfl
    rw [owns, hfree, Table.contains, h.named g hg]
    rfl

/-- A deed that asks a pool for nothing and returns nothing to it leaves the pool alone. -/
theorem pool_of_deed (hd : l.deed d = .ok (r, l')) (ha : ∀ b, l.asks? d ≠ some (p, b))
    (hr : ∀ b, l.returns? d ≠ some (p, b)) (hn : ∀ o, d ≠ .step (.newPool p o)) :
    l'.workspace.poolNames.get? p = l.workspace.poolNames.get? p := by
  cases d with
  | step s =>
      simp only [Lending.deed] at hd
      split at hd
      · next hadmits =>
          obtain ⟨hs, -⟩ := carry_eq_ok hd
          refine (spares_step hs).pools p fun hserves => ?_
          -- The step uses the pool, so it is one of those that the deed is not.
          cases s with
          | newPool q o => cases hserves; exact hn o rfl
          | take q b =>
              cases hserves
              exact ha b (asks?_eq_some.mpr ⟨not_isGuard_of_admits hadmits rfl, .inl rfl⟩)
          | giveBack q b =>
              cases hserves
              obtain ⟨_, -, hs⟩ := ok_of_bind hs
              obtain ⟨id, hid, -⟩ := ok_of_bind hs
              have howns : l.owns b = true := by
                rw [owns, Table.contains, builderId_eq_ok hid, not_isGuard_of_admits hadmits rfl]
                rfl
              exact hr b (returns?_eq_some.mpr (.inl ⟨howns, rfl⟩))
          | rent q t keep => simp [admits] at hadmits
          | _ => cases hserves
      · cases hd
  | rent q g =>
      simp only [Lending.deed] at hd
      split at hd
      · cases hd
      · next hfree =>
          obtain ⟨hs, -⟩ := carry_eq_ok hd
          refine (spares_step hs).pools p fun hserves => ?_
          cases hserves
          exact ha g (asks?_eq_some.mpr ⟨Bool.eq_false_iff.mpr hfree, .inr rfl⟩)
  | release g =>
      simp only [Lending.deed] at hd
      split at hd
      · next q hq =>
          obtain ⟨hs, -⟩ := carry_eq_ok hd
          refine (spares_step hs).pools p fun hserves => ?_
          cases hserves
          exact hr g (returns?_eq_some.mpr (.inr ⟨hq, rfl⟩))
      · cases hd
  | detach g =>
      simp only [Lending.deed] at hd
      split at hd <;> cases hd
      rfl
  | exchange b c =>
      simp only [Lending.deed] at hd
      split at hd
      · next he =>
          cases hd
          obtain ⟨i, j, -, -, rfl⟩ := exchange_eq_ok he
          rfl
      · cases hd

/-! ## §4. The queue. -/

/-- The builder that a pool hands out in a deed, if it did not make it then. -/
def handedOut (p : String) (l : Lending) (d : Deed) : Option BuilderId :=
  match l.asks? d, l.deed d with
  | some (q, b), .ok (_, l') =>
      if q = p then
        (l'.workspace.builderNames.get? b).filter fun id => (l.workspace.builderAt? id).isSome
      else none
  | _, _ => none

/-- The builder that is returned to a pool in a deed, if it waits in the pool then. -/
def accepted (p : String) (l : Lending) (d : Deed) : Option BuilderId :=
  match l.returns? d, l.deed d with
  | some (q, b), .ok (_, l') =>
      if q = p then
        (l.workspace.builderNames.get? b).filter fun id =>
          (l'.workspace.poolNames.get? p).any fun P => P.idle.contains id
      else none
  | _, _ => none

/-- What the deeds of a run yield, one after another. -/
def log (yield : Lending → Deed → Option BuilderId) (l : Lending) : List Deed → List BuilderId
  | [] => []
  | d :: rest => (yield l d).toList ++ log yield (l.after d) rest

theorem handedOut_eq_none (h : ∀ b, l.asks? d ≠ some (p, b)) : handedOut p l d = none := by
  unfold handedOut
  split
  · next q b _ l' hask _ =>
      rw [if_neg]
      rintro rfl
      exact h b hask
  · rfl

theorem accepted_eq_none (h : ∀ b, l.returns? d ≠ some (p, b)) : accepted p l d = none := by
  unfold accepted
  split
  · next q b _ l' hreturn _ =>
      rw [if_neg]
      rintro rfl
      exact h b hreturn
  · rfl

theorem returns?_of_asks? (h : l.asks? d = some (p, b)) : l.returns? d = none := by
  obtain ⟨-, rfl | rfl⟩ := asks?_eq_some.mp h
  · rfl
  · rfl

theorem after_of_deed (h : l.deed d = .ok (r, l')) : l.after d = l' := by
  rw [after, h]

/-- **One deed** moves the queue of a pool: what was handed out stood at its front, and what
was accepted stands at its end. -/
theorem queue_after (h : l.Sound) (hp : l.workspace.poolNames.get? p = some P)
    (hn : ∀ o, d ≠ .step (.newPool p o)) :
    ∃ P', (l.after d).workspace.poolNames.get? p = some P' ∧ P'.options = P.options ∧
      P.idle ++ (accepted p l d).toList = (handedOut p l d).toList ++ P'.idle := by
  by_cases hasks : ∃ b, l.asks? d = some (p, b)
  · obtain ⟨b, hask⟩ := hasks
    have hnone : accepted p l d = none :=
      accepted_eq_none fun b' hb' => by rw [returns?_of_asks? hask] at hb'; cases hb'
    obtain ⟨l', hd, hout⟩ := deed_asks_ok h hask hp
    rw [hnone, after_of_deed hd]
    simp only [handedOut, hask, hd]
    cases hidle : P.idle with
    | nil =>
        obtain ⟨id, hnew, hname, -, hpool⟩ := hout.made hidle
        exact ⟨P, hpool, rfl, by simp [hname, hnew, hidle]⟩
    | cons id rest =>
        obtain ⟨hname, -, hpool⟩ := hout.waiting id rest hidle
        obtain ⟨b₀, hb₀, -⟩ := h.owned.ready p P id hp (by rw [hidle]; exact List.mem_cons_self)
        exact ⟨_, hpool, rfl, by simp [hname, hb₀, Option.filter]⟩
  · rw [not_exists] at hasks
    rw [handedOut_eq_none hasks]
    by_cases hreturns : ∃ b, l.returns? d = some (p, b)
    · obtain ⟨b, hreturn⟩ := hreturns
      obtain ⟨l', id, b₀, hd, hname, hb₀, hback⟩ := deed_returns_ok h hreturn hp
      rw [after_of_deed hd]
      simp only [accepted, hreturn, hd, hname]
      by_cases ha : P.Accepts b₀
      · obtain ⟨hpool, -⟩ := hback.accepted ha
        exact ⟨_, hpool, rfl, by simp [hpool, Pool.put]⟩
      · obtain ⟨hpool, -⟩ := hback.rejected ha
        -- The builder had a name, so it did not wait.
        have hbusy : id ∉ P.idle := fun hid => h.owned.apart b id hname ⟨p, P, hp, hid⟩
        exact ⟨P, hpool, rfl, by simp [hpool, hbusy]⟩
    · rw [not_exists] at hreturns
      rw [accepted_eq_none hreturns]
      refine ⟨P, ?_, rfl, by simp⟩
      unfold after
      split
      · next hd => rw [pool_of_deed hd hasks hreturns hn, hp]
      · exact hp

/-- **What waits in a pool follows from what came and what went.** -/
theorem queue_run (later : List Deed) (hn : ∀ o, .step (.newPool p o) ∉ later) (h : l.Sound)
    (hp : l.workspace.poolNames.get? p = some P) :
    ∃ P', (l.run later).workspace.poolNames.get? p = some P' ∧ P'.options = P.options ∧
      P.idle ++ log (accepted p) l later = log (handedOut p) l later ++ P'.idle := by
  induction later generalizing l P with
  | nil => exact ⟨P, hp, rfl, by simp [log]⟩
  | cons d rest ih =>
      obtain ⟨P₁, hp₁, ho₁, hq₁⟩ := queue_after h hp fun o he => hn o (he ▸ List.mem_cons_self)
      obtain ⟨P₂, hp₂, ho₂, hq₂⟩ :=
        ih (fun o ho => hn o (List.mem_cons_of_mem d ho)) (h.after d) hp₁
      refine ⟨P₂, hp₂, ho₂.trans ho₁, ?_⟩
      calc P.idle ++ ((accepted p l d).toList ++ log (accepted p) (l.after d) rest)
          = (P.idle ++ (accepted p l d).toList) ++ log (accepted p) (l.after d) rest := by simp
        _ = (handedOut p l d).toList ++ (P₁.idle ++ log (accepted p) (l.after d) rest) := by
            rw [hq₁, List.append_assoc]
        _ = (handedOut p l d).toList ++ log (handedOut p) (l.after d) rest ++ P₂.idle := by
            rw [hq₂, List.append_assoc]

/-! ## §5. Renting for one text. -/

theorem after_step (h : l.admits s = true) :
    l.after (.step s) = { l with workspace := l.workspace.after s } := by
  cases hs : l.workspace.step s with
  | ok o => simp only [after, Lending.deed, h, if_true, carry, Workspace.after, hs]
  | error f => simp only [after, Lending.deed, h, if_true, carry, Workspace.after, hs]

/-- **Renting for one text is three deeds**: the builder is rented, appended to, and detached
from its guard or released by it. -/
theorem rent_eq_deeds (h : l.Sound) (hp : l.workspace.poolNames.get? p = some P) (t : String)
    (hfree : l.isGuard g = false) :
    l.run [.rent p g, .step (.edit g (.text t)), .detach g] =
        { l with workspace := l.workspace.after (.rent p t (some g)) } ∧
      (l.workspace.builderNames.get? g = none →
        l.run [.rent p g, .step (.edit g (.text t)), .release g] =
          { l with workspace := l.workspace.after (.rent p t none) }) := by
  have hpool : l.workspace.pool p = .ok P := by rw [pool, hp]
  have hnone : l.guards.get? g = none := by simpa [isGuard, Table.contains] using hfree
  have hguard : (l.guards.set g p).get? g = some p := (Table.get?_set ..).trans (if_pos rfl)
  -- The first two deeds are the same in both cases, and leave the guard with its builder.
  have hrented : (l.after (.rent p g)).after (.step (.edit g (.text t))) =
      ⟨l.workspace.after (.rent p t (some g)), l.guards.set g p⟩ := by
    obtain ⟨-, hunowned, b, hb, -⟩ := h.owned.takeFrom hp
    obtain ⟨tenant, hnamed, -⟩ := builder_nameBuilder hunowned hb g
    rw [← after_of_step (step_take hpool g)] at hnamed
    have htaken : l.after (.rent p g) = ⟨l.workspace.after (.take p g), l.guards.set g p⟩ := by
      simp only [after, Lending.deed, hfree, Bool.false_eq_true, if_false, carry,
        Workspace.after, step_take hpool g]
    rw [after_step rfl, htaken, (rent_eq_take h.owned hpool hnamed t).1]
  constructor
  · show ((l.after (.rent p g)).after (.step (.edit g (.text t)))).after (.detach g) = _
    rw [hrented]
    simp only [after, Lending.deed, isGuard, Table.contains, hguard, Option.isSome_some, if_true,
      Table.erase_set hnone]
  · intro hunnamed
    show ((l.after (.rent p g)).after (.step (.edit g (.text t)))).after (.release g) = _
    rw [hrented]
    obtain ⟨pool₁, b, hpool₁, -, hrent⟩ := step_rent h.owned hpool
    rw [after_of_step (hrent t (some g)), after_of_step (hrent t none)]
    generalize hw : (l.workspace.takeFrom p P).2.setBuilder (l.workspace.takeFrom p P).1
      (b.appendText t).2 = w
    have hpw : w.poolNames.get? p = some pool₁ := by
      subst hw
      exact pool_eq_ok hpool₁
    have hname : w.builderNames.get? g = none := by
      subst hw
      exact (congrArg (·.get? g) (builderNames_takeFrom l.workspace p P)).trans hunnamed
    have hback := step_giveBack_nameBuilder hpw hname (l.workspace.takeFrom p P).1
    simp only [after, Lending.deed, hguard, carry, afterRent, hback, Table.erase_set hnone]

/-! ## §6. Pools in order. -/

/-- **A pool keeps its builders in order**, whatever is done with builders of any origin.

1. It holds no more builders than it may.  All of them are alive and empty, and have the
   capacity and the policy of the pool.
2. None of them waits twice, in this pool or in another one, and none has a name, be it that
   of a guard.
3. It hands out a builder to everybody who asks: the one that waits longest, or a new one.
4. It takes every builder back that is returned by its owner, or with its guard: one that is
   alive and has the capacity and the policy of the pool is cleared and waits at the end as
   long as there is room, and every other one is disposed.
5. A guard that is detached leaves its builder to the caller.
6. From then on until the pool is replaced, what is handed out and what waits in the end is
   what waited and what was accepted, one after the other. -/
theorem pool_in_order (deeds : List Deed) {p : String} {P : Pool BuilderId}
    (hp : (run {} deeds).workspace.poolNames.get? p = some P) :
    (P.size ≤ P.options.limit ∧
      ∀ id ∈ P.idle, ∃ b, (run {} deeds).workspace.builderAt? id = some b ∧ b.Ready P.options) ∧
    (P.idle.Nodup ∧ ∀ id ∈ P.idle,
      (∀ n, (run {} deeds).workspace.builderNames.get? n ≠ some id) ∧
      ∀ q Q, (run {} deeds).workspace.poolNames.get? q = some Q → id ∈ Q.idle → q = p) ∧
    (∀ d b, (run {} deeds).asks? d = some (p, b) → ∃ l', (run {} deeds).deed d = .ok (.done, l') ∧
      HandsOut p P b (run {} deeds).workspace l'.workspace) ∧
    (∀ d b, (run {} deeds).returns? d = some (p, b) → ∃ l' id b₀,
      (run {} deeds).deed d = .ok (.done, l') ∧
      (run {} deeds).workspace.builderNames.get? b = some id ∧
      (run {} deeds).workspace.builderAt? id = some b₀ ∧
      TakesBack p P b id b₀ (run {} deeds).workspace l'.workspace) ∧
    (∀ g, (run {} deeds).isGuard g = true → ∃ l', (run {} deeds).deed (.detach g) = .ok (.done, l') ∧
      l'.workspace = (run {} deeds).workspace ∧ l'.owns g = true) ∧
    ∀ later, (∀ o, .step (.newPool p o) ∉ later) → ∃ P',
      ((run {} deeds).run later).workspace.poolNames.get? p = some P' ∧ P'.options = P.options ∧
      P.idle ++ log (accepted p) (run {} deeds) later =
        log (handedOut p) (run {} deeds) later ++ P'.idle := by
  have h := sound_run deeds
  refine ⟨⟨h.capped p P hp, fun id hid => h.owned.ready p P id hp hid⟩,
    ⟨h.owned.nodup p P hp, fun id hid => ⟨fun n hn => ?_, fun q Q hq hmem => ?_⟩⟩,
    fun d b hd => deed_asks_ok h hd hp, fun d b hd => deed_returns_ok h hd hp,
    fun g hg => deed_detach_ok h hg, fun later hn => queue_run later hn h hp⟩
  · exact h.owned.apart n id hn ⟨p, P, hp, hid⟩
  · exact h.owned.pooled q p Q P id hq hp hmem hid

/-- A guard whose builder is exchanged for a foreign one, and both builders returned. -/
def exchanged : List Deed :=
  [.step (.newPool "p" ⟨⟨8, .error⟩, 2⟩), .rent "p" "g", .rent "p" "h",
   .step (.newBuilder "b" ⟨4, .error⟩), .exchange "h" "b", .release "h", .release "g",
   .step (.giveBack "p" "b")]

theorem pool_in_order_exchanged : ∃ P',
    ((run {} exchanged).run [.rent "p" "g", .detach "g"]).workspace.poolNames.get? "p" = some P' ∧
      P'.options = ⟨⟨8, .error⟩, 2⟩ ∧ [⟨0⟩, ⟨1⟩] = [⟨0⟩] ++ P'.idle := by
  have hp : (run {} exchanged).workspace.poolNames.get? "p" =
      some ⟨⟨⟨8, .error⟩, 2⟩, [⟨0⟩, ⟨1⟩]⟩ := rfl
  obtain ⟨-, -, -, -, -, hqueue⟩ := pool_in_order exchanged hp
  exact hqueue [.rent "p" "g", .detach "g"] (by simp)

end Lending
end ValueText
