/-
  ValueText.Proofs.Buffer.Borrowing — memory that a caller lends to a builder.

  A builder over memory of a caller is returned to pools like any other one.  A pool asks for
  the capacity and the policy of a builder and never for whose its memory is, so it may come
  to hold such a builder and hand it out; whoever gets it writes to the memory of the caller.
  This is the only way: a step writes to the memory by the name of that builder or not at all,
  and a pool hands out what it has accepted.

  Main results:

    • `Lent.step`         a step writes to lent memory only by the name of its builder;
    • `named_after`       a builder gets a name only from a pool that hands it out;
    • `unowned_after`     a builder that nobody owns is left to nobody;
    • `accepted_of_waiting`  what waits in a pool was accepted by it;
    • `taken_run`         what waits in a pool can be taken out of it;
    • `lent_memory`       memory that was lent is written to later on exactly if a pool accepted
                          its builder.

  The last comes with a session in which a pool hands lent memory out.
-/
import ValueText.Proofs.Buffer.Lending

namespace ValueText

/-! ## §1. The memory of a builder. -/

/-- Some unit changes the memory when it is put at its front. -/
theorem Region.exists_put_ne {g : Region} (h : 0 < g.cells.size) :
    ∃ u, (g.put 0 u).cells.toList ≠ g.cells.toList := by
  obtain ⟨x, rest, hcells⟩ := List.exists_cons_of_length_pos (Array.length_toList ▸ h)
  obtain ⟨u, hu⟩ : ∃ u : CodeUnit, u ≠ x := by
    by_cases hx : x = 0
    · exact ⟨1, by rw [hx]; decide⟩
    · exact ⟨0, Ne.symm hx⟩
  refine ⟨u, fun he => hu ?_⟩
  rw [put, Array.toList_setIfInBounds, hcells] at he
  exact (List.cons.inj he).1

namespace Builder

variable {b b' : Builder}

theorem region_overflow (b : Builder) (requested available : Nat) :
    (b.overflow requested available).2.region = b.region := by
  unfold overflow
  split <;> rfl

theorem size_reserve (b : Builder) (count : Nat) {change : Region → Region}
    (hs : Region.Steady change) :
    (b.reserve count change).2.region.cells.size = b.region.cells.size := by
  unfold reserve
  split
  · exact hs.size b.region
  · rw [region_overflow]

theorem size_appendUnits (b : Builder) (us : List CodeUnit) :
    (b.appendUnits us).2.region.cells.size = b.region.cells.size :=
  size_reserve b _ (Region.steady_write _ us)

theorem size_terminate (b : Builder) : b.terminate.2.region.cells.size = b.region.cells.size := by
  have hregion := region_overflow b 1 0
  unfold terminate
  split
  · exact Region.size_put ..
  · split
    · next he => rw [he] at hregion; rw [hregion]
    · next he =>
        rw [he] at hregion
        split
        · exact (Region.size_put ..).trans (congrArg (·.cells.size) hregion)
        · rw [hregion]

theorem size_set? {i : Nat} {u : CodeUnit} (h : b.set? i u = some b') :
    b'.region.cells.size = b.region.cells.size := by
  simp only [set?, Region.store?, Option.map_eq_some_iff] at h
  obtain ⟨r, hr, rfl⟩ := h
  split at hr
  · cases hr
    exact Region.size_put ..
  · cases hr

theorem size_sink (b : Builder) (s : String) :
    (b.sink s).2.region.cells.size = b.region.cells.size := by
  have hsize := size_appendUnits b (CodeUnit.encode s)
  unfold sink appendText
  split
  · next he => rw [he] at hsize; exact hsize
  · next he => rw [he] at hsize; exact hsize

theorem size_sinkTo (v : Display) : ∀ b : Builder,
    (v.sinkTo b).2.region.cells.size = b.region.cells.size := by
  induction v with
  | done ok => exact fun b => rfl
  | write s next ih => exact fun b => (ih _ _).trans (size_sink b s)

theorem size_appendPieces (b : Builder) (pieces : List String) (complete : Bool) :
    (b.appendPieces pieces complete).2.region.cells.size = b.region.cells.size := by
  have hsize := size_sinkTo (.ofPieces complete pieces) b
  rw [appendPieces_eq]
  refine appendDisplay_induct (P := fun b' => b'.region.cells.size = b.region.cells.size) hsize ?_
  dsimp only
  rw [region_truncate]
  exact hsize

/-- The builder writes to `count` units of memory that was lent to it. -/
structure Over (count : Nat) (policy : OverflowPolicy) (b : Builder) : Prop where
  size : b.region.cells.size = count
  lent : b.region.ownership ≠ .owned
  policy : b.policy = policy
  unreleased : b.disposed = false → b.region.ownership ≠ .released
  capacity : b.disposed = false → b.capacity = count

namespace Over

variable {count : Nat} {policy : OverflowPolicy}

theorem borrowing (memory : List CodeUnit) (policy : OverflowPolicy) :
    (Builder.borrowing memory policy).Over memory.length policy :=
  ⟨List.size_toArray, nofun, rfl, fun _ => nofun, fun _ => List.size_toArray⟩

theorem framed (h : b.Over count policy) (hf : Framed b b')
    (hsize : b'.region.cells.size = b.region.cells.size) : b'.Over count policy := by
  refine ⟨hsize.trans h.size, ?_, hf.policy.trans h.policy, fun hd => ?_, fun hd => ?_⟩
  · rw [hf.ownership]
    exact h.lent
  · rw [hf.ownership]
    exact h.unreleased (hf.disposed ▸ hd)
  · rw [hf.capacity]
    exact h.capacity (hf.disposed ▸ hd)

/-- Memory that was lent is left alone when its builder is disposed. -/
theorem dispose (h : b.Over count policy) (shared : Bool) :
    (b.dispose shared).region.cells = b.region.cells ∧ (b.dispose shared).Over count policy := by
  unfold Builder.dispose
  split
  · exact ⟨rfl, h⟩
  · cases shared with
    | true => exact ⟨rfl, h.size, h.lent, h.policy, nofun, nofun⟩
    | false =>
        have hcells : b.region.release.cells = b.region.cells ∧
            b.region.release.ownership ≠ .owned := by
          have hlent := h.lent
          unfold Region.release
          cases ho : b.region.ownership with
          | owned => exact absurd ho hlent
          | borrowed => exact ⟨rfl, nofun⟩
          | released => exact ⟨rfl, nofun⟩
        exact ⟨hcells.1, (congrArg Array.size hcells.1).trans h.size, hcells.2, h.policy, nofun,
          nofun⟩

theorem discarded (h : b.Over count policy) (hd : Discarded b b') :
    b'.region.cells = b.region.cells ∧ b'.Over count policy := by
  rcases hd with rfl | ⟨shared, rfl⟩
  · exact ⟨rfl, h⟩
  · exact h.dispose shared

/-- **Memory that was lent is left alone** when its builder is returned or dropped. -/
theorem returned (h : b.Over count policy) (hr : Returned b b') :
    b'.region.cells = b.region.cells ∧ b'.Over count policy := by
  obtain ⟨b₁, rfl | rfl, hd⟩ := hr
  · exact h.discarded hd
  · have hclear : b.clear.Over count policy :=
      ⟨h.size, h.lent, h.policy, h.unreleased, h.capacity⟩
    exact hclear.discarded hd

end Over
end Builder

namespace Workspace

variable {w w' : Workspace} {id : BuilderId} {b : Builder} {n : String} {s : Step} {r : Reply}
  {count : Nat} {policy : OverflowPolicy}

/-- An edit other than disposing does not resize the memory. -/
theorem size_edited (w : Workspace) (id : BuilderId) (b : Builder) {e : Edit}
    (he : e ≠ .dispose) : (w.edited id b e).region.cells.size = b.region.cells.size := by
  cases e with
  | unit u => exact Builder.size_appendUnits b _
  | units us => exact Builder.size_appendUnits b us
  | char c => exact Builder.size_appendUnits b _
  | repeated u n => exact Builder.size_reserve b _ (Region.steady_write _ _)
  | text s => exact Builder.size_appendUnits b _
  | bool v => exact Builder.size_appendUnits b _
  | int width n =>
      rw [edited, Builder.appendInt_eq_appendUnits]
      exact Builder.size_appendUnits b _
  | pieces ps complete => exact Builder.size_appendPieces b ps complete
  | sink s => exact Builder.size_sink b s
  | builder other =>
      simp only [edited]
      cases w.builder? other with
      | none => rfl
      | some o => exact Builder.size_reserve b _ (Region.steady_write _ _)
  | snapshot name =>
      simp only [edited]
      cases w.reading? name with
      | none => rfl
      | some us => exact Builder.size_appendUnits b us
  | terminate => exact Builder.size_terminate b
  | clear => rfl
  | dispose => exact absurd rfl he
  | truncate n =>
      rw [edited, Builder.region_truncate]
  | get i => rfl
  | set i u =>
      simp only [edited]
      cases hset : b.set? i u with
      | none => rfl
      | some b' => exact Builder.size_set? hset

theorem over_edited (h : b.Over count policy) (e : Edit) : (w.edited id b e).Over count policy := by
  by_cases he : e = .dispose
  · subst he
    exact (h.dispose _).2
  · exact h.framed (framed_edited w id b he) (size_edited w id b he)

theorem builderAt?_of_tenants (h : w'.tenants = w.tenants) (id : BuilderId) :
    w'.builderAt? id = w.builderAt? id := by
  rw [builderAt?, builderAt?, h]

theorem memory?_of_builderAt? (h : w.builderAt? id = some b) :
    w.memory? id = some b.region.cells.toList := by
  rw [memory?, h]
  rfl

/-- The builder is there, and works over `count` units of memory that was lent. -/
def Lent (w : Workspace) (id : BuilderId) (count : Nat) (policy : OverflowPolicy) : Prop :=
  ∃ b, w.builderAt? id = some b ∧ b.Over count policy

theorem Lent.isSome (h : w.Lent id count policy) : (w.builderAt? id).isSome := by
  obtain ⟨b, hb, -⟩ := h
  rw [hb]
  rfl

theorem Lent.over (h : w.Lent id count policy) (hb : w.builderAt? id = some b) :
    b.Over count policy := by
  obtain ⟨b₁, hb₁, hover⟩ := h
  exact Option.some.inj (hb₁.symm.trans hb) ▸ hover

/-! ## §2. One step. -/

/-- **A step writes to lent memory only by the name of its builder.** -/
theorem Lent.step (h : w.Lent id count policy) (hs : w.step s = .ok (r, w'))
    (hrent : ∀ p t keep, s ≠ .rent p t keep) :
    w'.Lent id count policy ∧ (w'.memory? id = w.memory? id ∨
      ∃ n e, s = .edit n e ∧ w.builderNames.get? n = some id) := by
  obtain ⟨b, hb, hover⟩ := h
  by_cases hedit : ∃ n e, s = .edit n e
  · -- An edit changes the builder that it names and no other one.
    obtain ⟨n, e, rfl⟩ := hedit
    obtain ⟨v, hname, hv, he⟩ := edit_eq_ok hs
    have hat := builderAt?_edited hv he id
    rw [builderAt?_setBuilder] at hat
    by_cases hid : id = v.1
    · subst hid
      obtain rfl : v.2.builder = b := Option.some.inj (hv.symm.trans hb)
      rw [if_pos rfl, hv] at hat
      exact ⟨⟨_, hat, over_edited hover e⟩, .inr ⟨n, e, rfl, builderId_eq_ok hname⟩⟩
    · rw [if_neg hid] at hat
      exact ⟨⟨b, hat.trans hb, hover⟩, .inl (by rw [memory?, memory?, hat])⟩
  · -- Every other step clears and disposes builders, which writes nothing.
    obtain ⟨o, ho, hrel⟩ := moved_step hs (fun n e he => hedit ⟨n, e, he⟩) hrent id
    rcases ho with rfl | ⟨hnone, -⟩
    · rw [hb] at hrel
      obtain ⟨b', hb', hreturned⟩ := Slot.of_some hrel
      obtain ⟨hcells, hover'⟩ := hover.returned hreturned
      refine ⟨⟨b', hb', hover'⟩, .inl ?_⟩
      rw [memory?_of_builderAt? hb', memory?_of_builderAt? hb, hcells]
    · rw [hb] at hnone
      cases hnone

/-- Whoever has the name of a builder that is alive changes the first unit of lent memory. -/
theorem Lent.overwritten (h : w.Lent id count policy) (hcount : 0 < count)
    (hname : w.builderNames.get? n = some id) (hb : w.builderAt? id = some b)
    (halive : b.disposed = false) :
    ∃ u w', w.step (.edit n (.set 0 u)) = .ok (.done, w') ∧ w'.memory? id ≠ w.memory? id := by
  have hover := h.over hb
  obtain ⟨t, ht, rfl⟩ := builder_of_named hname hb
  have hcapacity : 0 < t.builder.region.capacity := by
    rw [Region.capacity, if_neg (hover.unreleased halive), hover.size]
    exact hcount
  obtain ⟨u, hu⟩ := Region.exists_put_ne (hover.size ▸ hcount)
  have hset : t.builder.set? 0 u = some (t.builder.withRegion (t.builder.region.put 0 u)) := by
    rw [Builder.set?, Region.store?, if_pos hcapacity]
    rfl
  refine ⟨u, w.setBuilder id (t.builder.withRegion (t.builder.region.put 0 u)), ?_, ?_⟩
  · rw [step_edit ht, edit]
    simp only [hset]
  · rw [memory?, builderAt?_setBuilder, if_pos rfl, hb, memory?_of_builderAt? hb]
    exact fun he => hu (Option.some.inj he)

theorem builderAt?_size (w : Workspace) : w.builderAt? ⟨w.tenants.size⟩ = none := by
  simp [builderAt?]

/-- Only taking gives a name to a builder that was there. -/
theorem named_of_step (hs : w.step s = .ok (r, w')) (htake : ∀ p b, s ≠ .take p b)
    (hrent : ∀ p t keep, s ≠ .rent p t keep) (hn : w'.builderNames.get? n = some id) :
    w.builderNames.get? n = some id ∨ w.builderAt? id = none := by
  by_cases hrenames : s.renames? = some n
  · cases s with
    | newBuilder m o =>
        cases hrenames
        cases hs
        rw [addNamed, get?_nameBuilder] at hn
        cases hn
        exact .inr (builderAt?_size w)
    | borrow m memory policy =>
        cases hrenames
        cases hs
        have hname := get?_nameBuilder (w.addBuilder (.borrowing memory policy)).2 n
          ⟨w.tenants.size⟩
        obtain rfl := Option.some.inj (hname.symm.trans hn)
        exact .inr (builderAt?_size w)
    | dropBuilder m =>
        cases hrenames
        obtain ⟨i, -, hs⟩ := ok_of_bind hs
        cases hs
        obtain ⟨tenants, he⟩ := disposeBuilder_eq (w.unnameBuilder n) i
        rw [he] at hn
        exact .inl (Table.get?_of_erase hn)
    | giveBack p m =>
        cases hrenames
        obtain ⟨pool, -, hs⟩ := ok_of_bind hs
        obtain ⟨i, -, hs⟩ := ok_of_bind hs
        cases hs
        rw [builderNames_giveBackTo] at hn
        exact .inl (Table.get?_of_erase hn)
    | take p m => exact absurd rfl (htake p m)
    | rent p t keep => exact absurd rfl (hrent p t keep)
    | _ => cases hrenames
  · rw [(spares_step hs).names n hrenames] at hn
    exact .inl hn

/-- Only a pool that is there is used. -/
theorem pool_of_step {q : String} (hs : w.step s = .ok (r, w')) (hq : w.poolNames.get? q = none)
    (hnew : ∀ o, s ≠ .newPool q o) : w'.poolNames.get? q = none := by
  by_cases hserves : s.serves? = some q
  · have hmissing {pool : Pool BuilderId} (hpool : w.pool q = .ok pool) : False := by
      rw [pool_eq_ok hpool] at hq
      cases hq
    cases s with
    | newPool p o => cases hserves; exact absurd rfl (hnew o)
    | take p m =>
        cases hserves
        obtain ⟨pool, hpool, -⟩ := ok_of_bind hs
        exact (hmissing hpool).elim
    | giveBack p m =>
        cases hserves
        obtain ⟨pool, hpool, -⟩ := ok_of_bind hs
        exact (hmissing hpool).elim
    | rent p t keep =>
        cases hserves
        obtain ⟨pool, hpool, -⟩ := ok_of_bind hs
        exact (hmissing hpool).elim
    | _ => cases hserves
  · rw [(spares_step hs).pools q hserves, hq]

end Workspace

namespace Lending

open Workspace

variable {l l' : Lending} {d : Deed} {id : BuilderId} {p q n : String} {P : Pool BuilderId}
  {r : Reply} {count : Nat} {policy : OverflowPolicy}

/-! ## §3. One deed. -/

/-- The deed has run the step: an edit or a new pool only if it is that step itself, and a step
that takes a builder only if it asks for one. -/
structure Runs (l : Lending) (d : Deed) (r : Reply) (l' : Lending) (s : Step) : Prop where
  step : l.workspace.step s = .ok (r, l'.workspace)
  notRent : ∀ p t keep, s ≠ .rent p t keep
  edits : ∀ n e, s = .edit n e → d = .step s
  makes : ∀ p o, s = .newPool p o → d = .step s
  takes : ∀ p b, s = .take p b → l.asks? d = some (p, b)

/-- Names may have been exchanged; no builder and no pool has changed. -/
structure Renamed (l l' : Lending) : Prop where
  tenants : l'.workspace.tenants = l.workspace.tenants
  pools : l'.workspace.poolNames = l.workspace.poolNames
  names : ∀ n id, l'.workspace.builderNames.get? n = some id →
    ∃ m, l.workspace.builderNames.get? m = some id

/-- **A deed runs a step, or it exchanges names.** -/
theorem deed_cases (h : l.deed d = .ok (r, l')) : (∃ s, Runs l d r l' s) ∨ Renamed l l' := by
  cases d with
  | step s =>
      simp only [Lending.deed] at h
      split at h
      · next ha =>
          refine .inl ⟨s, (carry_eq_ok h).1, ?_, fun _ _ _ => rfl, fun _ _ _ => rfl, ?_⟩
          · rintro p t keep rfl
            simp [admits] at ha
          · rintro p b rfl
            exact asks?_eq_some.mpr ⟨not_isGuard_of_admits ha rfl, .inl rfl⟩
      · cases h
  | rent p g =>
      simp only [Lending.deed] at h
      split at h
      · cases h
      · next hfree =>
          refine .inl ⟨_, (carry_eq_ok h).1, by simp, by simp, by simp, fun q b he => ?_⟩
          cases he
          exact asks?_eq_some.mpr ⟨Bool.eq_false_iff.mpr hfree, .inr rfl⟩
  | release g =>
      simp only [Lending.deed] at h
      split at h
      · exact .inl ⟨_, (carry_eq_ok h).1, by simp, by simp, by simp, by simp⟩
      · cases h
  | detach g =>
      simp only [Lending.deed] at h
      split at h <;> cases h
      exact .inr ⟨rfl, rfl, fun n id hn => ⟨n, hn⟩⟩
  | exchange b c =>
      simp only [Lending.deed] at h
      split at h
      · next he =>
          cases h
          have hget := get?_exchange he
          obtain ⟨i, j, -, -, rfl⟩ := exchange_eq_ok he
          exact .inr ⟨rfl, rfl, fun n id hn => ⟨_, (hget n).symm.trans hn⟩⟩
      · cases h

/-- **A deed writes to lent memory only by the name of its builder.** -/
theorem lent_after (h : l.workspace.Lent id count policy) (d : Deed) :
    (l.after d).workspace.Lent id count policy ∧
      ((l.after d).workspace.memory? id = l.workspace.memory? id ∨
        ∃ n e, d = .step (.edit n e) ∧ l.workspace.builderNames.get? n = some id) := by
  unfold Lending.after
  split
  · next hd =>
      rcases deed_cases hd with ⟨s, hruns⟩ | hrenamed
      · obtain ⟨hlent, hsame | ⟨n, e, rfl, hn⟩⟩ := h.step hruns.step hruns.notRent
        · exact ⟨hlent, .inl hsame⟩
        · exact ⟨hlent, .inr ⟨n, e, hruns.edits n e rfl, hn⟩⟩
      · obtain ⟨b, hb, hover⟩ := h
        have hat := builderAt?_of_tenants hrenamed.tenants id
        exact ⟨⟨b, hat.trans hb, hover⟩, .inl (by rw [memory?, memory?, hat])⟩
  · exact ⟨h, .inl rfl⟩

theorem lent_run (h : l.workspace.Lent id count policy) (deeds : List Deed) :
    (l.run deeds).workspace.Lent id count policy := by
  induction deeds generalizing l with
  | nil => exact h
  | cons d rest ih => exact ih (lent_after h d).1

/-- **A builder that was there has a name after a deed** only if it had one, or a pool handed it
out. -/
theorem named_after (hn : (l.after d).workspace.builderNames.get? n = some id)
    (hb : (l.workspace.builderAt? id).isSome) :
    (∃ m, l.workspace.builderNames.get? m = some id) ∨ ∃ q, handedOut q l d = some id := by
  cases hd : l.deed d with
  | error f =>
      rw [after, hd] at hn
      exact .inl ⟨n, hn⟩
  | ok o =>
      obtain ⟨r, l'⟩ := o
      rw [after_of_deed hd] at hn
      rcases deed_cases hd with ⟨s, hruns⟩ | hrenamed
      · by_cases hasks : ∃ p b, s = .take p b
        · obtain ⟨p, b, rfl⟩ := hasks
          by_cases hne : n = b
          · subst hne
            refine .inr ⟨p, ?_⟩
            simp [handedOut, hruns.takes p n rfl, hd, hn, hb, Option.filter]
          · rw [(spares_step hruns.step).names n fun he => hne (Option.some.inj he).symm] at hn
            exact .inl ⟨n, hn⟩
        · rcases named_of_step hruns.step (fun p b he => hasks ⟨p, b, he⟩) hruns.notRent hn with
            hold | hnone
          · exact .inl ⟨n, hold⟩
          · rw [hnone] at hb
            cases hb
      · exact .inl (hrenamed.names n id hn)

/-- **A builder that waits in a pool after a deed** has waited in it, or the pool accepted it. -/
theorem waiting_after (h : l.Sound) (hP : (l.after d).workspace.poolNames.get? p = some P)
    (hid : id ∈ P.idle) :
    (∃ Q, l.workspace.poolNames.get? p = some Q ∧ id ∈ Q.idle) ∨ accepted p l d = some id := by
  by_cases hnew : ∃ o, d = .step (.newPool p o)
  · -- Nothing waits in a pool that was just made.
    obtain ⟨o, rfl⟩ := hnew
    cases hadmits : l.admits (.newPool p o) with
    | false =>
        have hsame : l.after (.step (.newPool p o)) = l := by
          simp only [after, Lending.deed, hadmits, Bool.false_eq_true, if_false]
        rw [hsame] at hP
        exact .inl ⟨P, hP, hid⟩
    | true =>
        rw [after_step hadmits, Workspace.after, Workspace.step] at hP
        dsimp only at hP
        rw [poolNames_disposeBuilders, get?_setPool, if_pos rfl] at hP
        cases hP
        cases hid
  · cases hQ : l.workspace.poolNames.get? p with
    | some Q =>
        obtain ⟨P', hP', -, hqueue⟩ := queue_after h hQ fun o he => hnew ⟨o, he⟩
        obtain rfl : P' = P := Option.some.inj (hP'.symm.trans hP)
        have hmem : id ∈ Q.idle ++ (accepted p l d).toList := by
          rw [hqueue]
          exact List.mem_append_right _ hid
        rcases List.mem_append.mp hmem with hold | haccepted
        · exact .inl ⟨Q, rfl, hold⟩
        · exact .inr (Option.mem_toList.mp haccepted)
    | none =>
        -- A pool that is not there is not used.
        have hmissing : (l.after d).workspace.poolNames.get? p = none := by
          unfold Lending.after
          split
          · next hd =>
              rcases deed_cases hd with ⟨s, hruns⟩ | hrenamed
              · exact pool_of_step hruns.step hQ fun o he => hnew ⟨o, he ▸ hruns.makes p o he⟩
              · rw [hrenamed.pools, hQ]
          · exact hQ
        rw [hmissing] at hP
        cases hP

/-- A deed that asks a pool for a builder takes one out of it. -/
theorem take_of_asks {b : String} (hask : l.asks? d = some (p, b)) (hd : l.deed d = .ok (r, l')) :
    l.workspace.step (.take p b) = .ok (r, l'.workspace) := by
  obtain ⟨-, rfl | rfl⟩ := asks?_eq_some.mp hask
  · simp only [Lending.deed] at hd
    split at hd
    · exact (carry_eq_ok hd).1
    · cases hd
  · simp only [Lending.deed] at hd
    split at hd
    · cases hd
    · exact (carry_eq_ok hd).1

/-- A builder that a pool hands out waited in it, if it was there. -/
theorem waiting_of_handedOut (h : l.Sound) (ho : handedOut p l d = some id) :
    ∃ P, l.workspace.poolNames.get? p = some P ∧ id ∈ P.idle := by
  unfold handedOut at ho
  split at ho
  · next q b r l' hask hd =>
      split at ho
      · next he =>
          subst he
          obtain ⟨hname, hthere⟩ := Option.filter_eq_some_iff.mp ho
          obtain ⟨P, hP⟩ := Option.isSome_iff_exists.mp (isSome_of_take (take_of_asks hask hd)).1
          obtain ⟨l₁, hd₁, hout⟩ := deed_asks_ok h hask hP
          obtain rfl : l₁ = l' := by
            have he := hd₁.symm.trans hd
            exact congrArg Prod.snd (Except.ok.inj he)
          refine ⟨P, hP, ?_⟩
          cases hidle : P.idle with
          | nil =>
              obtain ⟨i, hnone, hname', -⟩ := hout.made hidle
              rw [hname] at hname'
              cases hname'
              rw [hnone] at hthere
              cases hthere
          | cons i rest =>
              obtain ⟨hname', -⟩ := hout.waiting i rest hidle
              rw [hname] at hname'
              cases hname'
              exact List.mem_cons_self
      · cases ho
  · cases ho

/-- A builder that a pool accepts had a name. -/
theorem named_of_accepted (ha : accepted p l d = some id) :
    ∃ m, l.workspace.builderNames.get? m = some id := by
  unfold accepted at ha
  split at ha
  · split at ha
    · exact ⟨_, (Option.filter_eq_some_iff.mp ha).1⟩
    · cases ha
  · cases ha

/-! ## §4. Builders that nobody owns. -/

theorem log_append (yield : Lending → Deed → Option BuilderId) (deeds later : List Deed) :
    ∀ l, log yield l (deeds ++ later) = log yield l deeds ++ log yield (l.run deeds) later := by
  induction deeds with
  | nil => intro l; rfl
  | cons d rest ih =>
      intro l
      show (yield l d).toList ++ log yield (l.after d) (rest ++ later) = _
      rw [ih, ← List.append_assoc]
      rfl

theorem run_append (l : Lending) (deeds later : List Deed) :
    l.run (deeds ++ later) = (l.run deeds).run later := List.foldl_append ..

/-- **A builder that nobody owns is left to nobody**: no pool hands it out, and it gets no name
and waits nowhere. -/
theorem unowned_after (h : l.Sound) (hb : (l.workspace.builderAt? id).isSome)
    (hid : l.workspace.Unowned id) (d : Deed) :
    (∀ q, handedOut q l d ≠ some id) ∧ (l.after d).workspace.Unowned id := by
  have hout (q : String) : handedOut q l d ≠ some id := by
    intro ho
    obtain ⟨Q, hQ, hmem⟩ := waiting_of_handedOut h ho
    exact hid.busy ⟨q, Q, hQ, hmem⟩
  refine ⟨hout, fun n hn => ?_, ?_⟩
  · rcases named_after hn hb with ⟨m, hm⟩ | ⟨q, hq⟩
    · exact hid.unnamed m hm
    · exact hout q hq
  · rintro ⟨q, Q, hQ, hmem⟩
    rcases waiting_after h hQ hmem with ⟨Q', hQ', hold⟩ | haccepted
    · exact hid.busy ⟨q, Q', hQ', hold⟩
    · obtain ⟨m, hm⟩ := named_of_accepted haccepted
      exact hid.unnamed m hm

theorem never_handedOut (later : List Deed) : ∀ {l : Lending}, l.Sound →
    l.workspace.Lent id count policy → l.workspace.Unowned id →
    ∀ q, id ∉ log (handedOut q) l later := by
  induction later with
  | nil => intro l _ _ _ q hmem; cases hmem
  | cons d rest ih =>
      intro l h hlent hid q hmem
      obtain ⟨hout, hid'⟩ := unowned_after h hlent.isSome hid d
      rcases List.mem_append.mp hmem with hnow | hlater
      · exact hout q (Option.mem_toList.mp hnow)
      · exact ih (h.after d) (lent_after hlent d).1 hid' q hlater

/-- **Lent memory is left alone** while its builder has no name and is not handed out. -/
theorem memory?_run (later : List Deed) : ∀ {l : Lending}, l.workspace.Lent id count policy →
    (∀ n, l.workspace.builderNames.get? n ≠ some id) →
    (∀ q, id ∉ log (handedOut q) l later) →
    (l.run later).workspace.memory? id = l.workspace.memory? id := by
  induction later with
  | nil => intro l _ _ _; rfl
  | cons d rest ih =>
      intro l hlent hunnamed hout
      obtain ⟨hlent', hsame | ⟨n, e, -, hn⟩⟩ := lent_after hlent d
      · refine (ih hlent' (fun n hn => ?_) fun q hmem => ?_).trans hsame
        · rcases named_after hn hlent.isSome with ⟨m, hm⟩ | ⟨q, hq⟩
          · exact hunnamed m hm
          · exact hout q (List.mem_append_left _ (Option.mem_toList.mpr hq))
        · exact hout q (List.mem_append_right _ hmem)
      · exact absurd hn (hunnamed n)

/-- **What waits in a pool was accepted by it.** -/
theorem accepted_of_waiting (deeds : List Deed) : ∀ {p P},
    (run {} deeds).workspace.poolNames.get? p = some P → id ∈ P.idle →
    id ∈ log (accepted p) {} deeds := by
  induction deeds using List.reverseRecOn with
  | nil => intro p P hP; cases hP
  | append_singleton deeds d ih =>
      intro p P hP hid
      rw [run_append] at hP
      rw [log_append]
      rcases waiting_after (sound_run deeds) hP hid with ⟨Q, hQ, hold⟩ | haccepted
      · exact List.mem_append_left _ (ih hQ hold)
      · refine List.mem_append_right _ ?_
        simp [log, haccepted]

/-! ## §5. Writing to a builder that waits. -/

theorem guards_after_step (s : Step) : (l.after (.step s)).guards = l.guards := by
  unfold Lending.after
  split
  · next hd =>
      simp only [Lending.deed] at hd
      split at hd
      · exact (carry_eq_ok hd).2
      · cases hd
  · rfl

theorem isGuard_after_step (s : Step) : (l.after (.step s)).isGuard n = l.isGuard n := by
  rw [isGuard, isGuard, guards_after_step]

/-- **A builder that waits is handed out** after those that wait in front of it, and until then
nobody writes to its memory. -/
theorem taken_run (front : List BuilderId) {rest : List BuilderId} : ∀ {l : Lending}
    {P : Pool BuilderId}, l.Sound → l.workspace.Lent id count policy → l.isGuard n = false →
    l.workspace.poolNames.get? p = some P → P.idle = front ++ id :: rest →
    ∃ later b, (l.run later).workspace.builderNames.get? n = some id ∧
      (l.run later).workspace.builderAt? id = some b ∧ b.disposed = false ∧
      (l.run later).workspace.memory? id = l.workspace.memory? id := by
  induction front with
  | nil =>
      intro l P h hlent hfree hP hidle
      obtain ⟨l', hd, hout⟩ := deed_asks_ok h (asks?_eq_some.mpr ⟨hfree, .inl rfl⟩) hP
      obtain ⟨hname, hat, -⟩ := hout.waiting id rest hidle
      obtain ⟨b, hb, hready⟩ := h.owned.ready p P id hP (by rw [hidle]; exact List.mem_cons_self)
      have hrun : l.run [.step (.take p n)] = l' := after_of_deed hd
      refine ⟨[.step (.take p n)], b, ?_⟩
      rw [hrun, memory?, memory?, hat]
      exact ⟨hname, hb, hready.disposed, rfl⟩
  | cons i front ih =>
      intro l P h hlent hfree hP hidle
      obtain ⟨l', hd, hout⟩ := deed_asks_ok h (asks?_eq_some.mpr ⟨hfree, .inl rfl⟩) hP
      obtain ⟨-, -, hP'⟩ := hout.waiting i (front ++ id :: rest) hidle
      have hafter := after_of_deed hd
      obtain ⟨hlent', hsame | ⟨_, _, he, -⟩⟩ := lent_after hlent (.step (.take p n))
      · rw [hafter] at hlent' hsame
        have hfree' : l'.isGuard n = false := by rw [← hafter, isGuard_after_step, hfree]
        obtain ⟨later, b, hname, hb, halive, hmemory⟩ :=
          ih (hafter ▸ h.after _) hlent' hfree' hP' rfl
        have hrun : l.run (.step (.take p n) :: later) = l'.run later :=
          congrArg (·.run later) hafter
        refine ⟨.step (.take p n) :: later, b, ?_⟩
        rw [hrun, hmemory, hsame]
        exact ⟨hname, hb, halive, rfl⟩
      · cases he

/-- **Whoever has a builder writes to the memory that was lent to it**, if there is any. -/
theorem overwritten {b : Builder} (hlent : l.workspace.Lent id count policy) (hcount : 0 < count)
    (hname : l.workspace.builderNames.get? n = some id)
    (hb : l.workspace.builderAt? id = some b) (halive : b.disposed = false) :
    ∃ d, (l.after d).workspace.memory? id ≠ l.workspace.memory? id := by
  obtain ⟨u, w', hstep, hmemory⟩ := hlent.overwritten hcount hname hb halive
  refine ⟨.step (.edit n (.set 0 u)), ?_⟩
  rw [after_step rfl, after_of_step hstep]
  exact hmemory

/-! ## §6. Returning a builder over lent memory. -/

theorem accepts_iff {b : Builder} (h : b.Over count policy) :
    P.Accepts b ↔ b.disposed = false ∧ count = P.options.builder.capacity ∧
      policy = P.options.builder.policy ∧ P.size < P.options.limit := by
  constructor
  · intro ha
    exact ⟨ha.alive, (h.capacity ha.alive).symm.trans ha.capacity, h.policy.symm.trans ha.policy,
      ha.room⟩
  · rintro ⟨halive, hcapacity, hpolicy, hroom⟩
    exact ⟨halive, (h.capacity halive).trans hcapacity, h.policy.trans hpolicy, hroom⟩

/-- A builder that was returned has no name. -/
theorem unnamed_of_returned {b : Builder} (h : l.Sound)
    (hname : l.workspace.builderNames.get? n = some id)
    (hback : TakesBack p P n id b l.workspace l'.workspace) (m : String) :
    l'.workspace.builderNames.get? m ≠ some id := by
  intro hm
  by_cases hne : n = m
  · rw [← hne, hback.unnamed] at hm
    cases hm
  · rw [hback.names m fun he => hne (Option.some.inj he)] at hm
    exact hne (h.owned.named n m id hname hm)

/-- Nobody owns a builder that was returned and not accepted. -/
theorem unowned_of_rejected {b : Builder} (h : l.Sound)
    (hname : l.workspace.builderNames.get? n = some id)
    (hP : l.workspace.poolNames.get? p = some P)
    (hback : TakesBack p P n id b l.workspace l'.workspace) (ha : ¬ P.Accepts b) :
    l'.workspace.Unowned id := by
  refine ⟨unnamed_of_returned h hname hback, ?_⟩
  -- It had a name, so it waited nowhere, and no pool has changed.
  have hbusy := h.owned.apart n id hname
  rintro ⟨q, Q, hQ, hmem⟩
  by_cases hne : p = q
  · subst hne
    rw [(hback.rejected ha).1] at hQ
    cases hQ
    exact hbusy ⟨p, P, hP, hmem⟩
  · rw [hback.pools q fun he => hne (Option.some.inj he)] at hQ
    exact hbusy ⟨q, Q, hQ, hmem⟩

/-- A name whose builder was returned is no guard. -/
theorem not_isGuard_of_returned (hreturn : l.returns? d = some (p, n))
    (hd : l.deed d = .ok (r, l')) : l'.isGuard n = false := by
  rcases returns?_eq_some.mp hreturn with ⟨howns, rfl⟩ | ⟨hguard, rfl⟩
  · simp only [owns, Bool.and_eq_true, Bool.not_eq_true'] at howns
    rw [← after_of_deed hd, isGuard_after_step, howns.2]
  · simp only [Lending.deed, hguard] at hd
    rw [isGuard, Table.contains, (carry_eq_ok hd).2, Table.get?_erase, if_pos rfl]
    rfl

theorem memory?_of_returns (h : l.workspace.Lent id count policy)
    (hreturn : l.returns? d = some (p, n)) :
    (l.after d).workspace.memory? id = l.workspace.memory? id := by
  rcases (lent_after h d).2 with hsame | ⟨m, e, rfl, -⟩
  · exact hsame
  · cases hreturn

/-- **Memory of a builder that was accepted** can be written to later, if there is any. -/
theorem overwritten_of_accepted {b : Builder} (h : l.Sound)
    (hlent : l.workspace.Lent id count policy) (hcount : 0 < count)
    (hreturn : l.returns? d = some (p, n)) (hd : l.deed d = .ok (r, l'))
    (hback : TakesBack p P n id b l.workspace l'.workspace) (ha : P.Accepts b) :
    ∃ later, (l'.run later).workspace.memory? id ≠ l'.workspace.memory? id := by
  obtain ⟨hP', -⟩ := hback.accepted ha
  have hlent' := (lent_after hlent d).1
  rw [after_of_deed hd] at hlent'
  obtain ⟨later, b', hname, hb', halive, hmemory⟩ :=
    taken_run P.idle (h.deed hd) hlent' (not_isGuard_of_returned hreturn hd) hP' rfl
  obtain ⟨d', hwritten⟩ := overwritten (lent_run hlent' later) hcount hname hb' halive
  refine ⟨later ++ [d'], ?_⟩
  rw [run_append, ← hmemory]
  exact hwritten

theorem memory?_of_empty {w : Workspace} (h : w.Lent id 0 policy) : w.memory? id = some [] := by
  obtain ⟨b, hb, hover⟩ := h
  rw [memory?_of_builderAt? hb, Array.eq_empty_of_size_eq_zero hover.size]

/-! ## §7. Memory that was lent. -/

/-- The builder was made over the memory in one of the deeds. -/
def MadeOver (deeds : List Deed) (id : BuilderId) (memory : List CodeUnit)
    (policy : OverflowPolicy) : Prop :=
  ∃ before n later, deeds = before ++ .step (.borrow n memory policy) :: later ∧
    (run {} before).isGuard n = false ∧ id = ⟨(run {} before).workspace.tenants.size⟩

theorem lent_borrow (h : l.Sound) (hfree : l.isGuard n = false) (memory : List CodeUnit)
    (policy : OverflowPolicy) : (l.after (.step (.borrow n memory policy))).workspace.Lent
      ⟨l.workspace.tenants.size⟩ memory.length policy := by
  have hadmits : l.admits (.borrow n memory policy) = true := by
    simp [admits, Step.renames?, hfree]
  obtain ⟨-, hunowned, hb⟩ := h.owned.addBuilder (.borrowing memory policy)
  have hat := builderAt?_nameBuilder (hunowned.unnamed n) ⟨l.workspace.tenants.size⟩
  rw [after_step hadmits]
  exact ⟨_, hat.trans hb, .borrowing memory policy⟩

theorem MadeOver.lent {deeds : List Deed} {memory : List CodeUnit}
    (h : MadeOver deeds id memory policy) :
    (run {} deeds).workspace.Lent id memory.length policy := by
  obtain ⟨before, n, later, rfl, hfree, rfl⟩ := h
  rw [run_append]
  exact lent_run (lent_borrow (sound_run before) hfree memory policy) later

/-- **Pools write to memory that was lent only through builders that they accepted.**  A builder
was made over memory of a caller in a session of any deeds.

1. Whatever is done next, the memory stays as it is unless the builder itself is edited.
2. If a pool hands the builder out, be it for a guard or not, then it has accepted it before, and
   the memory and the policy are what the pool would have made a builder with.
3. When the builder is returned, by its owner or with its guard, it is accepted exactly if it is
   alive, the memory and the policy are those of the pool, and there is room.  If it is not
   accepted, no pool ever hands it out.  The memory stays as it is until one does, and it stays
   so in every continuation exactly if the builder was not accepted or there is no memory. -/
theorem lent_memory (deeds : List Deed) {id : BuilderId} {memory : List CodeUnit}
    {policy : OverflowPolicy} (hmade : MadeOver deeds id memory policy) :
    (∀ d, ((run {} deeds).after d).workspace.memory? id = (run {} deeds).workspace.memory? id ∨
      ∃ n e, d = .step (.edit n e) ∧ (run {} deeds).workspace.builderNames.get? n = some id) ∧
    (∀ d p, handedOut p (run {} deeds) d = some id → id ∈ log (accepted p) {} deeds ∧
      ∃ P, (run {} deeds).workspace.poolNames.get? p = some P ∧
        memory.length = P.options.builder.capacity ∧ policy = P.options.builder.policy) ∧
    ∀ d p n P, (run {} deeds).returns? d = some (p, n) →
      (run {} deeds).workspace.builderNames.get? n = some id →
      (run {} deeds).workspace.poolNames.get? p = some P →
      ∃ b, (run {} deeds).workspace.builderAt? id = some b ∧
        (P.Accepts b ↔ b.disposed = false ∧ memory.length = P.options.builder.capacity ∧
          policy = P.options.builder.policy ∧ P.size < P.options.limit) ∧
        (¬ P.Accepts b → ∀ later q, id ∉ log (handedOut q) ((run {} deeds).after d) later) ∧
        (∀ later, (∀ q, id ∉ log (handedOut q) ((run {} deeds).after d) later) →
          (((run {} deeds).after d).run later).workspace.memory? id =
            (run {} deeds).workspace.memory? id) ∧
        ((∀ later, (((run {} deeds).after d).run later).workspace.memory? id =
          (run {} deeds).workspace.memory? id) ↔ (P.Accepts b → memory = [])) := by
  have hsound := sound_run deeds
  have hlent := hmade.lent
  refine ⟨fun d => (lent_after hlent d).2, fun d p hout => ?_, fun d p n P hreturn hname hP => ?_⟩
  · obtain ⟨P, hP, hid⟩ := waiting_of_handedOut hsound hout
    obtain ⟨b, hb, hready⟩ := hsound.owned.ready p P id hP hid
    have hover := hlent.over hb
    exact ⟨accepted_of_waiting deeds hP hid, P, hP,
      (hover.capacity hready.disposed).symm.trans hready.capacity,
      hover.policy.symm.trans hready.policy⟩
  · obtain ⟨l', i, b, hd, hname', hb, hback⟩ := deed_returns_ok hsound hreturn hP
    obtain rfl : i = id := Option.some.inj (hname'.symm.trans hname)
    have hsame := memory?_of_returns hlent hreturn
    have hlent' := (lent_after hlent d).1
    rw [after_of_deed hd] at hsame hlent' ⊢
    have hunnamed := unnamed_of_returned hsound hname hback
    have hnever (ha : ¬ P.Accepts b) (later : List Deed) (q : String) :
        i ∉ log (handedOut q) l' later :=
      never_handedOut later (hsound.deed hd) hlent'
        (unowned_of_rejected hsound hname hP hback ha) q
    refine ⟨b, hb, accepts_iff (hlent.over hb), hnever,
      fun later hout => (memory?_run later hlent' hunnamed hout).trans hsame, ?_, ?_⟩
    · intro hkept ha
      by_contra hne
      obtain ⟨later, hwritten⟩ := overwritten_of_accepted hsound hlent
        (List.length_pos_iff.mpr hne) hreturn hd hback ha
      exact hwritten ((hkept later).trans hsame.symm)
    · intro hempty later
      by_cases ha : P.Accepts b
      · rw [hempty ha, List.length_nil] at hlent hlent'
        rw [memory?_of_empty (lent_run hlent' later), memory?_of_empty hlent]
      · exact (memory?_run later hlent' hunnamed (hnever ha later)).trans hsame

/-- Two pools, and a builder over memory of a caller that suits the first one. -/
def lentToPools : List Deed :=
  [.step (.newPool "p" ⟨⟨4, .error⟩, 1⟩), .step (.newPool "q" ⟨⟨8, .error⟩, 1⟩),
   .step (.borrow "b" [1, 2, 3, 4] .error)]

theorem madeOver_lentToPools : MadeOver lentToPools ⟨0⟩ [1, 2, 3, 4] .error :=
  ⟨[.step (.newPool "p" ⟨⟨4, .error⟩, 1⟩), .step (.newPool "q" ⟨⟨8, .error⟩, 1⟩)], "b", [], rfl,
    rfl, rfl⟩

/-- The memory stays as it is forever if the builder is returned to the second pool, and not if
it is returned to the first one. -/
theorem lent_memory_pools :
    (∀ later, (((run {} lentToPools).after (.step (.giveBack "q" "b"))).run
      later).workspace.memory? ⟨0⟩ = some [1, 2, 3, 4]) ∧
    ¬ ∀ later, (((run {} lentToPools).after (.step (.giveBack "p" "b"))).run
      later).workspace.memory? ⟨0⟩ = some [1, 2, 3, 4] := by
  obtain ⟨-, -, hreturned⟩ := lent_memory lentToPools madeOver_lentToPools
  have hmemory : (run {} lentToPools).workspace.memory? ⟨0⟩ = some [1, 2, 3, 4] := rfl
  constructor
  · obtain ⟨b, -, haccepts, -, -, hkept⟩ :=
      hreturned (.step (.giveBack "q" "b")) "q" "b" ⟨⟨⟨8, .error⟩, 1⟩, []⟩ rfl rfl rfl
    rw [hmemory] at hkept
    exact hkept.mpr fun ha => absurd (haccepts.mp ha).2.1 (by decide)
  · obtain ⟨b, hb, haccepts, -, -, hkept⟩ :=
      hreturned (.step (.giveBack "p" "b")) "p" "b" ⟨⟨⟨4, .error⟩, 1⟩, []⟩ rfl rfl rfl
    rw [hmemory] at hkept
    have halive : ((run {} lentToPools).workspace.builderAt? ⟨0⟩).map (·.disposed) =
        some false := rfl
    rw [hb] at halive
    intro hall
    have hempty := hkept.mp hall (haccepts.mpr ⟨Option.some.inj halive, rfl, rfl, by decide⟩)
    cases hempty

/-- The builder is returned to the first pool and handed out again, and the text that is
appended then overwrites the memory. -/
theorem lent_memory_overwritten :
    MadeOver lentToPools ⟨0⟩ [1, 2, 3, 4] .error ∧
      (run {} lentToPools).returns? (.step (.giveBack "p" "b")) = some ("p", "b") ∧
      (run {} lentToPools).workspace.builderNames.get? "b" = some ⟨0⟩ ∧
      (run {} (lentToPools ++ [.step (.giveBack "p" "b")])).workspace.memory? ⟨0⟩ =
        some [1, 2, 3, 4] ∧
      handedOut "p" (run {} (lentToPools ++ [.step (.giveBack "p" "b")]))
        (.step (.take "p" "c")) = some ⟨0⟩ ∧
      (run {} (lentToPools ++ [.step (.giveBack "p" "b"), .step (.take "p" "c"),
        .step (.edit "c" (.text "ab"))])).workspace.memory? ⟨0⟩ = some [97, 98, 3, 4] :=
  ⟨madeOver_lentToPools, rfl, rfl, rfl, rfl, rfl⟩

end Lending
end ValueText
