/-
  ValueText.Proofs.Buffer.Handles — a snapshot while its builder stands still.

  The handles of a snapshot are read, frozen, handed out once more and dropped, and
  nothing happens to the builder.  A snapshot that was current stays current, and
  all that it has kept is the content it was taken of.  What can still be lost are
  surrogates that stand alone: a snapshot that has kept its text and not its units is
  frozen to the text.

  Main results:

    • `snapshotAt?_uses`      what uses of handles do to a snapshot is the looks at it,
                              one after another;
    • `firstSnapshot_units`   which units the first snapshot of a builder shows, and
                              when these are the builder's;
    • `snapshot_coherent`     the text and the lengths that a snapshot shows.
-/
import ValueText.Proofs.Buffer.Bounded
import ValueText.Proofs.Buffer.Freezing
import ValueText.Proofs.Text.Surrogates

namespace ValueText

open Workspace (Look)

namespace Snapshot

variable {see : BuilderId → Published} {s s' : Snapshot} {id : BuilderId} {v : UInt64} {n : Nat}
  {u : List CodeUnit}

/-! ## §1. Looks at a current snapshot. -/

/-- The snapshot after a look. -/
def looked (see : BuilderId → Published) (s : Snapshot) : Look → Snapshot
  | .text | .display => ((s.readText? see).map (·.2)).getD s
  | .array => ((s.readArray? see).map (·.2)).getD s
  | .segment => ((s.readSegment? see).map (·.2)).getD s
  | .freeze => (s.freeze? see).getD s
  | .recycle => (s.recycle? see).getD s

/-- There is nothing to recycle in a current snapshot. -/
theorem looked_recycle (hc : s.isCurrent see = true) : s.looked see .recycle = s := by
  unfold looked recycle?
  unfold isCurrent at hc
  cases ho : s.origin with
  | bound id v n =>
      rw [ho] at hc
      simp only at hc
      simp only [hc, if_true, Option.getD_some]
  | units seg => rfl
  | text t => rfl

theorem read_looked (hc : s.isCurrent see = true) (l : Look) : Read see s (s.looked see l) := by
  cases l with
  | text | display =>
      simp only [looked]
      cases hr : s.readText? see with
      | none => exact .none
      | some o => exact .text hr
  | array =>
      simp only [looked]
      cases hr : s.readArray? see with
      | none => exact .none
      | some o => exact .array hr
  | segment =>
      simp only [looked]
      cases hr : s.readSegment? see with
      | none => exact .none
      | some o => exact .segment hr
  | freeze =>
      simp only [looked]
      cases hr : s.freeze? see with
      | none => exact .none
      | some s' => exact .freeze hr
  | recycle =>
      rw [looked_recycle hc]
      exact .none

theorem Read.isCurrent (h : Read see s s') (hc : s.isCurrent see = true) :
    s'.isCurrent see = true := by
  rcases h.origin with ho | hfrozen
  · rwa [Snapshot.isCurrent, ho]
  · exact isCurrent_of_isFrozen (by rw [isFrozen, hfrozen]; rfl) see

/-- A snapshot that shows one content only has its length. -/
theorem Shows.length (h : Shows id v n (· = u) s) (hn : n = u.length) : s.length = u.length := by
  unfold Snapshot.length
  rcases h.origin with ho | ⟨seg, ho, rfl⟩ | ⟨u, ho, rfl⟩
  · rw [ho]
    exact hn
  · rw [ho]
    exact seg.units_length.symm
  · rw [ho]
    exact (congrArg List.length (CodeUnit.encode_decode u)).trans (CodeUnit.mended_length u)

/-! ## §2. Freezing to the text. -/

/-- Whether the looks freeze a snapshot while a text is all that it has kept; `kept` tells
whether it has kept one before. -/
def freezesText (kept : Bool) : List Look → Bool
  | .text :: rest | .display :: rest => freezesText true rest
  | .recycle :: rest => freezesText kept rest
  | .freeze :: _ => kept
  | .array :: _ | .segment :: _ | [] => false

/-- Whether the looks leave a snapshot of a text. -/
def endsAsText (s : Snapshot) (looks : List Look) : Bool :=
  match s.origin with
  | .text _ => true
  | .units _ => false
  | .bound .. => s.array.isNone && freezesText s.text.isSome looks

/-- A frozen snapshot ends as it is. -/
theorem endsAsText_congr (hf : s.isFrozen = true) (ho : s'.origin = s.origin)
    (looks looks' : List Look) : s'.endsAsText looks' = s.endsAsText looks := by
  unfold endsAsText
  rw [ho]
  rcases origin_of_isFrozen hf with ⟨seg, ho⟩ | ⟨x, ho⟩ <;> rw [ho]

theorem looked_text (hc : s.isCurrent see = true) :
    ∃ t, s.looked see .text = { s with text := some t } := by
  simp only [looked, readText?, hc, if_true]
  cases ht : s.text with
  | some t => exact ⟨t, by simp [← ht]⟩
  | none => exact ⟨_, rfl⟩

theorem looked_segment (hc : s.isCurrent see = true) :
    ∃ seg, s.looked see .segment = { s with array := some seg } := by
  simp only [looked, readSegment?, hc, if_true]
  cases ha : s.array with
  | some seg => exact ⟨seg, by simp [← ha]⟩
  | none => exact ⟨_, rfl⟩

theorem looked_array (hc : s.isCurrent see = true) :
    ∃ seg, s.looked see .array = { s with array := some seg } := by
  obtain ⟨seg, s₁, hr⟩ : ∃ seg s₁, s.readSegment? see = some (seg, s₁) := by
    simp only [readSegment?, hc, if_true]
    split
    · exact ⟨_, _, rfl⟩
    · exact ⟨_, _, rfl⟩
  have hlook : s.looked see .segment = s₁ := by simp [looked, hr]
  obtain ⟨seg', hs₁⟩ := looked_segment hc
  rw [hlook] at hs₁
  simp only [looked, readArray?, hr]
  split
  · exact ⟨seg', hs₁⟩
  · exact ⟨.whole seg.units, by rw [hs₁]; rfl⟩

/-- A frozen snapshot does not change its origin. -/
theorem origin_looked (hf : s.isFrozen = true) (l : Look) : (s.looked see l).origin = s.origin := by
  have hc := isCurrent_of_isFrozen hf see
  cases l with
  | text | display =>
      obtain ⟨t, he⟩ := looked_text hc
      show (s.looked see .text).origin = s.origin
      rw [he]
  | array =>
      obtain ⟨seg, he⟩ := looked_array hc
      rw [he]
  | segment =>
      obtain ⟨seg, he⟩ := looked_segment hc
      rw [he]
  | freeze => simp [looked, freeze?, hf]
  | recycle => rw [looked_recycle hc]

/-- Freezing takes the units that were kept, or else the text, or else the content. -/
theorem endsAsText_freeze (hc : s.isCurrent see = true) (ho : s.origin = .bound id v n)
    (looks : List Look) :
    (s.looked see .freeze).endsAsText looks = (s.array.isNone && s.text.isSome) := by
  have hf : s.isFrozen = false := by rw [isFrozen, boundTo?, ho]; rfl
  simp only [looked, freeze?, hf, hc, if_true, Bool.false_eq_true, if_false]
  cases s.array with
  | some seg => rfl
  | none =>
      cases s.text with
      | some t => rfl
      | none => rfl

/-- **A look brings the snapshot to where the remaining looks go on.** -/
theorem endsAsText_cons (hc : s.isCurrent see = true) (l : Look) (looks : List Look) :
    s.endsAsText (l :: looks) = (s.looked see l).endsAsText looks := by
  by_cases hf : s.isFrozen = true
  · exact (endsAsText_congr hf (origin_looked hf l) _ _).symm
  · obtain ⟨id, v, n, ho⟩ : ∃ id v n, s.origin = .bound id v n := by
      unfold isFrozen boundTo? at hf
      cases ho : s.origin with
      | bound id v n => exact ⟨id, v, n, rfl⟩
      | units seg => simp [ho] at hf
      | text t => simp [ho] at hf
    cases l with
    | text | display =>
        obtain ⟨t, he⟩ := looked_text hc
        show _ = (s.looked see .text).endsAsText looks
        simp only [endsAsText, he, ho, freezesText, Option.isSome_some]
    | array =>
        obtain ⟨seg, he⟩ := looked_array hc
        simp [endsAsText, he, ho, freezesText]
    | segment =>
        obtain ⟨seg, he⟩ := looked_segment hc
        simp [endsAsText, he, ho, freezesText]
    | freeze =>
        rw [endsAsText_freeze hc ho]
        simp only [endsAsText, ho, freezesText]
    | recycle =>
        rw [looked_recycle hc]
        simp only [endsAsText, ho, freezesText]

/-- What a current snapshot that shows the content `u` only does after looks at it. -/
theorem Shows.looks (hs : Sees see id v n (· = u)) (looks : List Look) :
    ∀ {s : Snapshot}, Shows id v n (· = u) s → s.isCurrent see = true →
      Shows id v n (· = u) (looks.foldl (looked see) s) ∧
      (looks.foldl (looked see) s).isCurrent see = true ∧
      (looks.foldl (looked see) s).endsAsText [] = s.endsAsText looks := by
  induction looks with
  | nil => exact fun h hc => ⟨h, hc, rfl⟩
  | cons l looks ih =>
      intro s h hc
      have hr := read_looked hc l
      obtain ⟨h', hc', he⟩ := ih (h.read hs hr) (hr.isCurrent hc)
      exact ⟨h', hc', he.trans (endsAsText_cons hc l looks).symm⟩

/-- The units that a snapshot of the content `u` shows. -/
theorem unitsOf_eq (s : Snapshot) (u : List CodeUnit) :
    s.unitsOf u = if s.endsAsText [] then CodeUnit.mended u else u := by
  unfold unitsOf endsAsText
  cases s.origin with
  | bound id v n => simp [freezesText]
  | units seg => rfl
  | text t => exact CodeUnit.encode_decode u

end Snapshot

namespace Workspace

variable {w w' : Workspace} {sid sid' : SnapshotId} {s : Snapshot} {st : Step} {steps : List Step}
  {id : BuilderId} {name : String} {u : List CodeUnit}

/-! ## §3. Uses of handles. -/

/-- The step looks through a handle of a snapshot, hands out another one or drops it.  To display
a snapshot is to read its text. -/
def Step.UsesHandle : Step → Prop
  | .look .. | .clone .. | .dropSnapshot _ => True
  | _ => False

/-- The look at a snapshot that the step takes, through whichever name holds it. -/
def Step.looksAt (w : Workspace) (sid : SnapshotId) : Step → List Look
  | .look name l => if w.snapshotNames.get? name = some sid then [l] else []
  | _ => []

/-- The looks at a snapshot that the steps take one after another. -/
def looksAt (w : Workspace) (sid : SnapshotId) : List Step → List Look
  | [] => []
  | st :: rest => st.looksAt w sid ++ (w.after st).looksAt sid rest

theorem snapshotAt?_look (hs : w.snapshotAt? sid = some s) (l : Look) (sid' : SnapshotId) :
    (w.look sid s l).2.snapshotAt? sid' =
      if sid' = sid then some (s.looked w.see l) else w.snapshotAt? sid' := by
  have hset (s' : Snapshot) : (w.setSnapshot sid s').snapshotAt? sid' =
      if sid' = sid then some s' else w.snapshotAt? sid' := by
    rw [snapshotAt?_setSnapshot, hs]
    rfl
  -- A look that is refused leaves the snapshot as it is.
  have hsame : w.snapshotAt? sid' = if sid' = sid then some s else w.snapshotAt? sid' := by
    split
    · next he => rw [he, hs]
    · rfl
  cases l with
  | text | display =>
      simp only [look, Snapshot.looked]
      cases s.readText? w.see with
      | none => exact hsame
      | some o => exact hset o.2
  | array =>
      simp only [look, Snapshot.looked]
      cases s.readArray? w.see with
      | none => exact hsame
      | some o => exact hset o.2
  | segment =>
      simp only [look, Snapshot.looked]
      cases s.readSegment? w.see with
      | none => exact hsame
      | some o => exact hset o.2
  | freeze =>
      simp only [look, Snapshot.looked]
      cases s.freeze? w.see with
      | none => exact hsame
      | some s' => exact hset s'
  | recycle =>
      simp only [look, Snapshot.looked]
      cases s.recycle? w.see with
      | none => exact hsame
      | some s' => exact hset s'

/-- **A use of a handle leaves the builders as they are**, and what it does to a snapshot
is a look at it, if anything. -/
theorem after_use (hst : st.UsesHandle) (hs : w.snapshotAt? sid = some s) :
    (w.after st).tenants = w.tenants ∧
    (w.after st).snapshotAt? sid = some ((st.looksAt w sid).foldl (Snapshot.looked w.see) s) := by
  cases st with
  | look name l =>
      cases hfound : w.snapshot name with
      | error f =>
          -- The name holds no snapshot, this one in particular.
          have hname : w.snapshotNames.get? name ≠ some sid := by
            intro hname
            rw [snapshot_of_get? hname hs] at hfound
            cases hfound
          have hstep : w.step (.look name l) = .error f := by
            simp only [step, bind, Except.bind, hfound]
          rw [after, hstep, Step.looksAt, if_neg hname]
          exact ⟨rfl, hs⟩
      | ok v =>
          obtain ⟨hname, hat⟩ := snapshot_eq_ok hfound
          have hafter : w.after (.look name l) = (w.look v.1 v.2 l).2 :=
            after_of_step (step_look hfound l)
          rw [hafter, snapshotAt?_look hat, Step.looksAt, hname]
          refine ⟨tenants_look w v.1 v.2 l, ?_⟩
          by_cases he : v.1 = sid
          · subst he
            rw [hs] at hat
            cases hat
            rw [if_pos rfl, if_pos rfl]
            rfl
          · rw [if_neg (fun h => he h.symm), if_neg (fun h => he (Option.some.inj h)), hs]
            rfl
  | clone s' source =>
      unfold after
      split
      · next _ h =>
          obtain ⟨v, -, h⟩ := ok_of_bind h
          cases h
          exact ⟨rfl, hs⟩
      · exact ⟨rfl, hs⟩
  | dropSnapshot s' =>
      unfold after
      split
      · next _ h =>
          obtain ⟨v, -, h⟩ := ok_of_bind h
          cases h
          exact ⟨rfl, hs⟩
      · exact ⟨rfl, hs⟩
  | _ => exact hst.elim

theorem see_of_tenants (h : w'.tenants = w.tenants) : w'.see = w.see := by
  funext id
  rw [see, see, builderAt?, builderAt?, h]

/-- **Uses of handles are looks at a snapshot, one after another.** -/
theorem snapshotAt?_uses (uses : List Step) (huses : ∀ st ∈ uses, st.UsesHandle) :
    ∀ {w : Workspace} {s : Snapshot}, w.snapshotAt? sid = some s →
      (w.run uses).see = w.see ∧
      (w.run uses).snapshotAt? sid = some ((w.looksAt sid uses).foldl (Snapshot.looked w.see) s) := by
  induction uses with
  | nil => exact fun hs => ⟨rfl, hs⟩
  | cons st rest ih =>
      intro w s hs
      obtain ⟨htenants, hs'⟩ := after_use (huses st (by simp)) hs
      have hsee := see_of_tenants htenants
      obtain ⟨hsee', hrun⟩ := ih (fun st' h => huses st' (by simp [h])) hs'
      rw [run_cons]
      refine ⟨hsee'.trans hsee, ?_⟩
      rw [hrun, looksAt, List.foldl_append, hsee]

/-! ## §4. The first snapshot of a builder. -/

theorem cached_edit {owner : BuilderId} {t : Tenant} {e : Edit} {r : Reply}
    (h : w.edit owner t e = .ok (r, w')) (id : BuilderId) :
    w'.cachedAt? id = w.cachedAt? id ∨ w'.cachedAt? id = none := by
  have hset (b : Builder) : (w.setBuilder owner b).cachedAt? id = w.cachedAt? id ∨
      (w.setBuilder owner b).cachedAt? id = none := (quiet_setBuilder w owner b).cached id
  cases e with
  | builder other =>
      obtain ⟨_, _, h⟩ := ok_of_bind h
      cases h
      exact hset _
  | snapshot name =>
      obtain ⟨v, _, h⟩ := ok_of_bind h
      dsimp only at h
      split at h
      · cases h
        exact .inl rfl
      · next seg s' hr =>
          cases h
          exact (quiet_setBuilder (w.setSnapshot v.1 s') owner _).cached id
  | dispose =>
      cases h
      exact (quiet_disposeBuilder w owner).cached id
  | get i =>
      simp only [edit] at h
      split at h
      · cases h
        exact .inl rfl
      · cases h
  | set i u =>
      simp only [edit] at h
      split at h
      · cases h
        exact hset _
      · cases h
  | _ =>
      cases h
      exact hset _

/-- Only taking a snapshot of a builder lets it keep one. -/
theorem cached_step {r : Reply} (h : w.step st = .ok (r, w'))
    (hst : ∀ name keep, st = .snap name keep → w.builderId name ≠ .ok id) :
    w'.cachedAt? id = w.cachedAt? id ∨ w'.cachedAt? id = none := by
  cases st with
  | newBuilder b o =>
      cases h
      exact ((quiet_addBuilder w _).trans (quiet_nameBuilder _ b _)).cached id
  | borrow b memory policy =>
      cases h
      exact ((quiet_addBuilder w (.borrowing memory policy)).trans
        (quiet_nameBuilder _ b ⟨w.tenants.size⟩)).cached id
  | dropBuilder b =>
      obtain ⟨owner, _, h⟩ := ok_of_bind h
      cases h
      exact (quiet_disposeBuilder (w.unnameBuilder b) owner).cached id
  | edit name e =>
      obtain ⟨_, _, h⟩ := ok_of_bind h
      exact cached_edit h id
  | snap b keep =>
      obtain ⟨v, hv, h⟩ := ok_of_bind h
      cases h
      -- The builder that keeps the snapshot is another one.
      have hother : v.1.index ≠ id.index := by
        intro he
        apply hst b keep rfl
        rw [(builder_eq_ok hv).1]
        cases hid : v.1
        cases id
        simp_all
      left
      show (w.takeSnapshot v.1 v.2).2.cachedAt? id = w.cachedAt? id
      unfold takeSnapshot
      split
      · rfl
      · rw [cachedAt?_modify, if_neg hother]
        rfl
  | ofSegment s us start length =>
      simp only [step] at h
      split at h
      · cases h
        exact .inl rfl
      · cases h
  | clone s source =>
      obtain ⟨_, _, h⟩ := ok_of_bind h
      cases h
      exact .inl rfl
  | dropSnapshot s =>
      obtain ⟨_, _, h⟩ := ok_of_bind h
      cases h
      exact .inl rfl
  | look name l =>
      obtain ⟨v, _, h⟩ := ok_of_bind h
      have ht := tenants_look w v.1 v.2 l
      rw [Except.ok.inj h] at ht
      left
      rw [cachedAt?, cachedAt?, ht]
  | newPool p o =>
      cases h
      exact (quiet_foldl _ (w.setPool p (.new o))).cached id
  | take p b =>
      obtain ⟨pool, _, h⟩ := ok_of_bind h
      cases h
      exact ((quiet_takeFrom w p pool).trans (quiet_nameBuilder _ b _)).cached id
  | giveBack p b =>
      obtain ⟨pool, _, h⟩ := ok_of_bind h
      obtain ⟨owner, _, h⟩ := ok_of_bind h
      cases h
      exact (quiet_giveBackTo (w.unnameBuilder b) p pool owner).cached id
  | rent p t keep => exact (quiet_rent h).cached id
  | access g a =>
      obtain ⟨_, _, h⟩ := ok_of_bind h
      obtain ⟨_, rfl⟩ := access_cases h
      exact .inl rfl
  | _ =>
      cases h
      exact .inl rfl

/-- The session takes no snapshot of the builder. -/
def Unsnapped (id : BuilderId) (steps : List Step) : Prop :=
  ∀ before name keep rest, steps = before ++ .snap name keep :: rest →
    (run {} before).builderId name ≠ .ok id

/-- A builder of which no snapshot was taken keeps none. -/
theorem cachedAt?_of_unsnapped (h : Unsnapped id steps) : (run {} steps).cachedAt? id = none := by
  induction steps using List.reverseRecOn with
  | nil => simp [cachedAt?]
  | append_singleton steps st ih =>
      have hsteps : Unsnapped id steps := by
        intro before name keep rest he
        exact h before name keep (rest ++ [st]) (by rw [he]; simp)
      rw [run_snoc]
      cases hs : (run {} steps).step st with
      | error f =>
          rw [after, hs]
          exact ih hsteps
      | ok o =>
          obtain ⟨r, w'⟩ := o
          rw [after_of_step hs]
          rcases cached_step hs (fun name keep he => h steps name keep [] (by rw [he])) with hc | hc
          · exact hc.trans (ih hsteps)
          · exact hc

/-- A first snapshot is a new one, bound to the content as it is. -/
theorem snap_first {t : Tenant} (h : w.builder name = .ok (id, t)) (hn : t.cached = none)
    (keep : String) :
    ∃ w', w.step (.snap name keep) = .ok (.done, w') ∧
      w'.snapshot keep = .ok (⟨w.snapshots.size⟩, .bind id t.builder) ∧
      ∀ id', w'.builderAt? id' = w.builderAt? id' := by
  refine ⟨_, step_snap h, ?_, fun id' => builderAt?_takeSnapshot w id id' t⟩
  have hreuse : w.reusable? t = none := by rw [reusable?, hn]
  apply snapshot_of_get?
  · simp [takeSnapshot, hreuse, addSnapshot, nameSnapshot]
  · simp [takeSnapshot, hreuse, addSnapshot, nameSnapshot, snapshotAt?]

/-! ## §5. What the handles show. -/

/-- **What a current snapshot of the content `u` shows** after uses of its handles. -/
theorem readsAs_uses {v : UInt64} {n : Nat} (hs : w.snapshotAt? sid = some s)
    (hshows : s.Shows id v n (· = u)) (hsees : Snapshot.Sees w.see id v n (· = u))
    (hc : s.isCurrent w.see = true) (hn : n = u.length) {uses : List Step}
    (huses : ∀ st ∈ uses, st.UsesHandle) {handle : String}
    (hname : (w.run uses).snapshotNames.get? handle = some sid) :
    ReadsAs (w.run uses) handle
      (if s.endsAsText (w.looksAt sid uses) then CodeUnit.mended u else u) (CodeUnit.decode u) ∧
    ∃ s', (w.run uses).snapshot? handle = some s' ∧ s'.length = u.length := by
  obtain ⟨hsee, hat⟩ := snapshotAt?_uses uses huses hs
  obtain ⟨hshows', hc', hends⟩ := hshows.looks hsees (w.looksAt sid uses) hc
  have hfound := snapshot_of_get? hname hat
  obtain ⟨us, ut, hreads, rfl, rfl⟩ :=
    readsAs_of_shows hfound hshows' (by rw [hsee]; exact hsees) (by rw [hsee]; exact hc')
  rw [Snapshot.unitsOf_eq, hends] at hreads
  refine ⟨hreads, _, ?_, hshows'.length hn⟩
  rw [snapshot?, hfound]
  rfl

/-- A first snapshot of a builder, and what its handles show while the builder stands still. -/
theorem readsAs_first {t : Tenant} (h : (run {} steps).builder name = .ok (id, t))
    (hfirst : Unsnapped id steps) (keep : String) :
    ∃ w sid, (run {} steps).step (.snap name keep) = .ok (.done, w) ∧
      w.snapshotNames.get? keep = some sid ∧
      ∀ uses, (∀ st ∈ uses, st.UsesHandle) → ∀ handle,
        (w.run uses).snapshotNames.get? handle = some sid →
        ReadsAs (w.run uses) handle
          (if Snapshot.freezesText false (w.looksAt sid uses) then CodeUnit.mended t.builder.units
            else t.builder.units) t.builder.text ∧
        ∃ s, (w.run uses).snapshot? handle = some s ∧ s.length = t.builder.units.length := by
  obtain ⟨hid, ht⟩ := builder_eq_ok h
  have hcached : t.cached = none := by
    have hn := cachedAt?_of_unsnapped hfirst
    rw [cachedAt?, ht] at hn
    exact hn
  obtain ⟨w, hstep, hfound, hbuilders⟩ := snap_first h hcached keep
  obtain ⟨hname, hat⟩ := snapshot_eq_ok hfound
  have hb : w.builderAt? id = some t.builder := (hbuilders id).trans (builderAt?_of_tenant ht)
  have hsee := see_of_builderAt? hb
  have hpub := consistent_run steps id _ (builderAt?_of_tenant ht)
  have hlength := (bounded_run steps id _ (builderAt?_of_tenant ht)).units_length
  refine ⟨w, _, hstep, hname, fun uses huses handle hhandle => ?_⟩
  have hsees : Snapshot.Sees w.see id t.builder.version t.builder.length (· = t.builder.units) := by
    intro _ _
    rw [hsee]
    rfl
  have hcurrent : (Snapshot.bind id t.builder).isCurrent w.see = true := by
    simp only [Snapshot.isCurrent, Snapshot.bind, hsee, Bool.and_eq_true, decide_eq_true_eq]
    exact ⟨hpub.version, hpub.length⟩
  exact readsAs_uses hat (.unread rfl rfl rfl) hsees hcurrent hlength.symm huses hhandle

/-- **The units of a first snapshot.**  Whatever uses of its handles follow while the builder
stands still, every handle shows the units of the builder, or these mended if the snapshot
was frozen when a text was all that it had kept.  So the units come back exactly if
it was not frozen like that, or if they encode a text. -/
theorem firstSnapshot_units {t : Tenant} (h : (run {} steps).builder name = .ok (id, t))
    (hfirst : Unsnapped id steps) (keep : String) :
    ∃ w sid, (run {} steps).step (.snap name keep) = .ok (.done, w) ∧
      w.snapshotNames.get? keep = some sid ∧
      ∀ uses, (∀ st ∈ uses, st.UsesHandle) → ∀ handle,
        (w.run uses).snapshotNames.get? handle = some sid →
        ReadsAs (w.run uses) handle
          (if Snapshot.freezesText false (w.looksAt sid uses) then CodeUnit.mended t.builder.units
            else t.builder.units) t.builder.text ∧
        (ReadsAs (w.run uses) handle t.builder.units t.builder.text ↔
          Snapshot.freezesText false (w.looksAt sid uses) = false ∨
            ∃ text, t.builder.units = CodeUnit.encode text) := by
  obtain ⟨w, sid, hstep, hname, hshown⟩ := readsAs_first h hfirst keep
  refine ⟨w, sid, hstep, hname, fun uses huses handle hhandle => ?_⟩
  obtain ⟨hreads, -⟩ := hshown uses huses handle hhandle
  refine ⟨hreads, ?_⟩
  rw [← CodeUnit.mended_eq_self_iff]
  cases hfreezes : Snapshot.freezesText false (w.looksAt sid uses) with
  | false =>
      rw [hfreezes] at hreads
      exact ⟨fun _ => .inl rfl, fun _ => hreads⟩
  | true =>
      rw [hfreezes, if_pos rfl] at hreads
      constructor
      · intro hkept
        exact .inr (hkept.unique hreads).1
      · rintro (hn | hmended)
        · cases hn
        · rwa [hmended] at hreads

theorem unsnapped_of_forall (h : ∀ name keep, Step.snap name keep ∉ steps) : Unsnapped id steps := by
  intro before name keep rest hsteps
  exact absurd (by rw [hsteps]; simp) (h name keep)

/-- A session that appends a surrogate that stands alone. -/
def lone : List Step := [.newBuilder "b" ⟨8, .error⟩, .edit "b" (.unit 0xD800)]

/-- The surrogate comes back from a snapshot that has kept the units when it is frozen. -/
theorem firstSnapshot_units_lone :
    ∃ w, (run {} lone).step (.snap "b" "s") = .ok (.done, w) ∧
      ReadsAs (w.run [.look "s" .segment, .look "s" .text, .clone "t" "s", .look "t" .freeze]) "t"
        [0xD800] (CodeUnit.decode [0xD800]) := by
  have hb : (run {} lone).builder "b" = .ok (⟨0⟩, _) := rfl
  obtain ⟨w, sid, hstep, hname, hreads⟩ :=
    firstSnapshot_units hb (unsnapped_of_forall (by simp [lone])) "s"
  cases hstep
  cases hname
  refine ⟨_, rfl, (hreads _ ?_ "t" rfl).1⟩
  simp [Step.UsesHandle]

/-- It does not come back from one that has kept the text. -/
theorem firstSnapshot_units_lost :
    ((run {} lone).builder? "b").map (·.units) = some [0xD800] ∧
      ∃ w, ((run {} lone).run [.snap "b" "s", .look "s" .text, .look "s" .freeze]).step
        (.look "s" .array) = .ok (.units [0xFFFD], w) :=
  ⟨by decide, _, rfl⟩

/-! ## §6. Text and lengths. -/

/-- After the session, the step makes a snapshot of the units under the name: the first one
of a builder that has this content, or one of units, of a segment or of a text. -/
inductive Makes (steps : List Step) : Step → String → List CodeUnit → Prop
  | first {b keep : String} {id : BuilderId} {t : Tenant} :
      (run {} steps).builder b = .ok (id, t) → Unsnapped id steps →
      Makes steps (.snap b keep) keep t.builder.units
  | units (name : String) (us : List CodeUnit) : Makes steps (.ofUnits name us) name us
  | segment (name : String) {us : List CodeUnit} {start length : Nat} :
      start + length ≤ us.length →
      Makes steps (.ofSegment name us start length) name ((us.drop start).take length)
  | text (name : String) (x : String) : Makes steps (.ofText name x) name (CodeUnit.encode x)

/-- The handles of the snapshot show one text, and units of one length, after any uses of them. -/
def Coherent (w : Workspace) (sid : SnapshotId) (u : List CodeUnit) : Prop :=
  ∀ uses, (∀ st ∈ uses, st.UsesHandle) → ∀ handle,
    (w.run uses).snapshotNames.get? handle = some sid →
    ∃ us s, ReadsAs (w.run uses) handle us (CodeUnit.decode u) ∧ us.length = u.length ∧
      (w.run uses).snapshot? handle = some s ∧ s.length = u.length

/-- A snapshot that has content of its own and has kept nothing yet. -/
theorem coherent_owned {s : Snapshot} (hfrozen : s.isFrozen = true) (ha : s.array = none)
    (ht : s.text = none) (hcontent : ∀ see, s.content see = u) (hlength : s.length = u.length)
    (name : String) : ∃ sid, (w.addSnapshotNamed name s).snapshotNames.get? name = some sid ∧
      (w.addSnapshotNamed name s).Coherent sid u := by
  obtain ⟨sid, hfound⟩ := snapshot_addSnapshotNamed w name s
  obtain ⟨hname, hat⟩ := snapshot_eq_ok hfound
  refine ⟨sid, hname, fun uses _ handle hhandle => ?_⟩
  have hfixed : s.Fixed u (CodeUnit.decode u) u.length := by
    refine ⟨hfrozen, hlength, fun seg hseg => ?_, fun _ => hcontent, fun x hx => ?_, fun _ => rfl⟩
    · rw [ha] at hseg
      cases hseg
    · rw [ht] at hx
      cases hx
  obtain ⟨s', hat', hfixed'⟩ := fixed_run uses hat hfixed
  have hfound' := snapshot_of_get? hhandle hat'
  refine ⟨u, s', readsAs_of_fixed hfound' hfixed', rfl, ?_, hfixed'.length⟩
  rw [snapshot?, hfound']
  rfl

/-- **Text and lengths are coherent.**  A snapshot of the units `u` answers every read after
any uses of its handles: the text is that of `u`, and the snapshot, every array and every
segment have as many units as `u`. -/
theorem snapshot_coherent {st : Step} (h : Makes steps st name u) :
    ∃ w sid, (run {} steps).step st = .ok (.done, w) ∧ w.snapshotNames.get? name = some sid ∧
      w.Coherent sid u := by
  cases h with
  | first hb hfirst =>
      obtain ⟨w, sid, hstep, hname, hreads⟩ := readsAs_first hb hfirst name
      refine ⟨w, sid, hstep, hname, fun uses huses handle hhandle => ?_⟩
      obtain ⟨hread, s, hs, hlength⟩ := hreads uses huses handle hhandle
      refine ⟨_, s, hread, ?_, hs, hlength⟩
      split
      · exact CodeUnit.mended_length _
      · rfl
  | units name _ =>
      obtain ⟨sid, hname, hcoherent⟩ := coherent_owned (w := run {} steps) (s := .ofUnits u)
        rfl rfl rfl (fun _ => Segment.units_whole u) rfl name
      exact ⟨_, sid, rfl, hname, hcoherent⟩
  | @segment _ us start length hinside =>
      have hsegment : Segment.of? us start length = some ⟨us, start, length, hinside⟩ :=
        dif_pos hinside
      obtain ⟨sid, hname, hcoherent⟩ := coherent_owned (w := run {} steps)
        (s := .ofSegment ⟨us, start, length, hinside⟩) rfl rfl rfl (fun _ => rfl)
        (Segment.units_length _).symm name
      refine ⟨_, sid, ?_, hname, hcoherent⟩
      simp only [step, hsegment]
  | text name x =>
      obtain ⟨sid, hname, hcoherent⟩ := coherent_owned (w := run {} steps) (s := .ofText x)
        rfl rfl rfl (fun _ => rfl) rfl name
      exact ⟨_, sid, rfl, hname, hcoherent⟩

/-- The text and the length of a surrogate that stands alone, after the units were lost. -/
theorem snapshot_coherent_lone :
    ∃ w, (run {} lone).step (.snap "b" "s") = .ok (.done, w) ∧
      ∃ us, ReadsAs (w.run [.look "s" .text, .look "s" .freeze]) "s" us (CodeUnit.decode [0xD800]) ∧
        us.length = 1 := by
  have hb : (run {} lone).builder "b" = .ok (⟨0⟩, _) := rfl
  have hmakes : Makes lone (.snap "b" "s") "s" _ :=
    .first hb (unsnapped_of_forall (by simp [lone]))
  obtain ⟨w, sid, hstep, hname, hcoherent⟩ := snapshot_coherent hmakes
  cases hstep
  cases hname
  obtain ⟨us, s, hreads, hlength, -, -⟩ := hcoherent [.look "s" .text, .look "s" .freeze]
    (by simp [Step.UsesHandle]) "s" rfl
  exact ⟨_, rfl, us, hreads, hlength⟩

end Workspace
end ValueText
