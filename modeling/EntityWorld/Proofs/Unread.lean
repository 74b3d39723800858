/-
# Nothing reads the journal

Operations write to the journal and never ask it anything. So two worlds that are the
same but for their journals go through an operation alike: it fails in both for the same
cause or gives the same in both, and the worlds that it leaves are the same but for
their journals again. How the journals are related is up to the reader; the relation
has to be kept by the records that an operation makes (`Journal.Kept`), and by
nothing if it makes none.

Key definitions: `Journal.Kept`, `World.UpToJournal`.
Key theorems: `World.UpToJournal.spawn` and its like for the other operations.
-/
import EntityWorld.Proofs.Changes
import EntityWorld.Proofs.Stamping
import EntityWorld.Proofs.Twins
import Mathlib.Tactic

namespace EntityWorld

/-- What holds between two journals holds after any record in both. -/
def Journal.Kept (R : Journal → Journal → Prop) : Prop :=
  ∀ ⦃j j'⦄, R j j' → ∀ r : Record, R (j.record r) (j'.record r)

variable {κ : Type} [Family κ]

/-- The worlds are the same but for their journals, and between these `R` holds. -/
inductive World.UpToJournal (R : Journal → Journal → Prop) (w : World κ) : World κ → Prop
  | mk {j : Journal} : R w.journal j → UpToJournal R w { w with journal := j }

namespace World.UpToJournal

variable {R : Journal → Journal → Prop} {w w' : World κ}

theorem journal (h : w.UpToJournal R w') : R w.journal w'.journal := by
  cases h with
  | mk hj => exact hj

/-! ### What makes no record -/

theorem onLabels {α : Type} (h : w.UpToJournal R w') (e : Handle)
    (act : EStateM LabelError Labels α) :
    Agree (UpToJournal R) Eq (World.onLabels e act w) (World.onLabels e act w') := by
  cases h with
  | @mk j hj =>
    have halive : World.isAlive { w with journal := j } e = w.isAlive e := rfl
    unfold World.onLabels
    rw [halive]
    split
    · cases act w.labels with
      | ok x labels => exact .ok x (.mk (w := { w with labels := labels }) hj)
      | error cause labels => exact .error rfl (.mk (w := { w with labels := labels }) hj)
    · exact .error rfl (.mk hj)

section Columns

variable [DecidableEq κ] (k : κ) (e : Handle)

theorem get?_eq (h : w.UpToJournal R w') : w'.get? k e = w.get? k e := by
  cases h with
  | mk hj => rfl

theorem isRegistered_eq (h : w.UpToJournal R w') : w'.isRegistered k = w.isRegistered k := by
  cases h with
  | mk hj => rfl

theorem column (h : w.UpToJournal R w') :
    Agree (UpToJournal R) Eq (World.column k w) (World.column k w') := by
  cases h with
  | @mk j hj =>
    have hsame : World.column? { w with journal := j } k = w.column? k := rfl
    unfold World.column
    rw [hsame]
    cases w.column? k with
    | some c => exact .ok c (.mk hj)
    | none => exact .error rfl (.mk hj)

theorem rework (h : w.UpToJournal R w') (f : Column (Value k) → Column (Value k)) :
    (w.rework k f).UpToJournal R (w'.rework k f) := by
  cases h with
  | mk hj => exact .mk (w := w.rework k f) hj

theorem modifyColumn (h : w.UpToJournal R w') (f : Column (Value k) → Column (Value k)) :
    Agree (UpToJournal R) Eq (World.modifyColumn k f w) (World.modifyColumn k f w') := by
  unfold World.modifyColumn
  rw [h.isRegistered_eq]
  split
  · exact .ok () (h.rework k f)
  · exact .error rfl h

theorem edit (h : w.UpToJournal R w') (f : Value k → Value k) :
    Agree (UpToJournal R) Eq (World.edit k e f w) (World.edit k e f w') := by
  rw [edit_eq, edit_eq, h.isRegistered_eq, h.get?_eq]
  split
  · refine .ok _ ?_
    split
    · exact h.rework k _
    · exact h
  · exact .error rfl h

theorem registerWith (h : w.UpToJournal R w') (codec : Option (Codec (Value k))) :
    Agree (UpToJournal R) Eq (World.registerWith k codec w) (World.registerWith k codec w') := by
  cases h with
  | @mk j hj =>
    have hregistered : World.isRegistered { w with journal := j } k = w.isRegistered k := rfl
    have htag : World.ofTag? { w with journal := j } (tagOf k) = w.ofTag? (tagOf k) := rfl
    unfold World.registerWith
    rw [hregistered, htag]
    split
    · cases w.settings.repeats with
      | reject => exact .error rfl (.mk hj)
      | accept => exact .ok () (.mk (w := w.offer k codec) hj)
    · cases w.ofTag? (tagOf k) with
      | some other => exact .error rfl (.mk hj)
      | none => exact .ok () (.mk (w := w.enroll k codec) hj)

end Columns

/-! ### What makes records -/

section Records

variable (hR : Journal.Kept R)

include hR

theorem enter (h : w.UpToJournal R w') (e : Handle) (pool : SlotPool) :
    (w.enter e pool).UpToJournal R (w'.enter e pool) := by
  cases h with
  | mk hj => exact .mk (w := w.enter e pool) (hR hj (.creation e))

theorem spawn (h : w.UpToJournal R w') :
    Agree (UpToJournal R) Eq (World.spawn w) (World.spawn w') := by
  have henter := h.enter hR
  cases h with
  | @mk j hj =>
    cases hs : SlotPool.spawn w.pool with
    | ok e pool =>
      rw [spawn_of_ok hs, spawn_of_ok (w := { w with journal := j }) hs]
      exact .ok e (henter e pool)
    | error cause _ =>
      rw [spawn_of_error hs, spawn_of_error (w := { w with journal := j }) hs]
      exact .error rfl (.mk hj)

theorem occupy (h : w.UpToJournal R w') (i : UInt32) :
    Agree (UpToJournal R) Eq (World.occupy i w) (World.occupy i w') := by
  have henter := h.enter hR
  cases h with
  | @mk j hj =>
    have hpool : World.pool { w with journal := j } = w.pool := rfl
    unfold World.occupy
    rw [hpool]
    cases SlotPool.claim i w.pool with
    | ok e pool => exact .ok e (henter e pool)
    | error cause _ => exact .error rfl (.mk hj)

theorem claim (h : w.UpToJournal R w') (i : UInt32) :
    Agree (UpToJournal R) Eq (World.claim i w) (World.claim i w') := by
  have hmay : w'.mayClaim i = w.mayClaim i := by
    cases h with
    | mk hj => rfl
  unfold World.claim
  rw [hmay]
  split
  · exact (h.occupy hR i).adaptExcept WorldError.handle
  · exact .error rfl h

theorem kill (h : w.UpToJournal R w') (e : Handle) :
    Agree (UpToJournal R) Eq (World.kill e w) (World.kill e w') := by
  cases h with
  | @mk j hj =>
    cases hk : SlotPool.kill e w.pool with
    | ok _ pool =>
      rw [kill_of_ok hk, kill_of_ok (w := { w with journal := j }) hk]
      exact .ok () (.mk (w := w.leave e pool) (hR hj (.destruction e)))
    | error cause _ =>
      rw [kill_of_error hk, kill_of_error (w := { w with journal := j }) hk]
      exact .error rfl (.mk hj)

theorem stamp (h : w.UpToJournal R w') (k : κ) (e : Handle) :
    (w.stamp k e).UpToJournal R (w'.stamp k e) := by
  cases h with
  | mk hj => exact .mk (w := w.stamp k e) (hR hj (.update e (tagOf k)))

variable [DecidableEq κ] (k : κ) (e : Handle)

theorem write (h : w.UpToJournal R w') (o : Option (Value k)) :
    (w.write k e o).UpToJournal R (w'.write k e o) := by
  cases h with
  | mk hj => exact .mk (w := w.write k e o) (hR hj (.update e (tagOf k)))

theorem discard (h : w.UpToJournal R w') : (w.discard k e).UpToJournal R (w'.discard k e) := by
  cases h with
  | @mk j hj =>
    have hget : World.get? { w with journal := j } k e = w.get? k e := rfl
    unfold World.discard
    rw [hget]
    split
    · exact .mk (w := { w with registrations := _, journal := _ })
        (hR hj (.removal e (tagOf k)))
    · exact .mk (w := { w with registrations := _ }) hj

omit hR in
/-- What may be refused is refused in both worlds or in neither. -/
theorem agree_of_refusal {α : Type} (h : w.UpToJournal R w')
    {x x' r r' : EStateM.Result WorldError (World κ) α}
    (hx : x = match w.refusal? k e with
      | some c => .error c w
      | none => r)
    (hx' : x' = match w'.refusal? k e with
      | some c => .error c w'
      | none => r') (hr : Agree (UpToJournal R) Eq r r') : Agree (UpToJournal R) Eq x x' := by
  have hrefusal : w'.refusal? k e = w.refusal? k e := by
    cases h with
    | mk hj => rfl
  rw [hx, hx', hrefusal]
  cases w.refusal? k e with
  | some c => exact .error rfl h
  | none => exact hr

theorem add (h : w.UpToJournal R w') (v : Value k) :
    Agree (UpToJournal R) Eq (World.add k e v w) (World.add k e v w') :=
  h.agree_of_refusal k e (add_eq k e v w) (add_eq k e v w') (.ok () (h.write hR k e (some v)))

theorem emplace (h : w.UpToJournal R w') (make : Unit → Option (Value k)) :
    Agree (UpToJournal R) Eq (World.emplace k e make w) (World.emplace k e make w') :=
  h.agree_of_refusal k e (emplace_eq k e make w) (emplace_eq k e make w')
    (.ok _ (h.write hR k e (make ())))

theorem remove (h : w.UpToJournal R w') :
    Agree (UpToJournal R) Eq (World.remove k e w) (World.remove k e w') := by
  refine h.agree_of_refusal k e (remove_eq k e w) (remove_eq k e w') ?_
  rw [h.get?_eq]
  exact .ok _ (h.discard hR k e)

theorem markDirty (h : w.UpToJournal R w') :
    Agree (UpToJournal R) Eq (World.markDirty k e w) (World.markDirty k e w') := by
  refine h.agree_of_refusal k e (markDirty_eq k e w) (markDirty_eq k e w') ?_
  rw [h.get?_eq]
  split
  · exact .ok true (h.stamp hR k e)
  · exact .ok false h

/-! ### Snapshots -/

omit [DecidableEq κ] in
theorem inhabit (h : w.UpToJournal R w') (i : UInt32) :
    Agree (UpToJournal R) Eq (World.inhabit i w) (World.inhabit i w') := by
  have hoccupy := h.occupy hR i
  cases h with
  | @mk j hj =>
    have hpool : World.pool { w with journal := j } = w.pool := rfl
    have halive : World.isAlive { w with journal := j } = w.isAlive := rfl
    unfold World.inhabit
    rw [hpool, halive]
    split
    · exact .ok _ (.mk hj)
    · exact hoccupy

theorem restoreEntry (h : w.UpToJournal R w') (x : SnapshotEntry) :
    Agree (UpToJournal R) Eq (World.restoreEntry x w) (World.restoreEntry x w') := by
  have hsynced : w'.synced? x.tag = w.synced? x.tag := by
    cases h with
    | mk hj => rfl
  have hinhabit := h.inhabit hR x.index
  unfold World.restoreEntry
  rw [hsynced]
  generalize World.inhabit x.index w = r, World.inhabit x.index w' = r' at hinhabit ⊢
  cases w.synced? x.tag with
  | none => exact .error rfl h
  | some kind =>
    obtain ⟨k, codec⟩ := kind
    cases hinhabit with
    | error hc hst => exact .error (congrArg SnapshotError.handle hc) hst
    | ok e hst =>
      simp only
      cases codec.decode x.data with
      | error cause => exact .error rfl hst
      | ok v => exact (hst.add hR k e v).adaptExcept SnapshotError.world

theorem restore (h : w.UpToJournal R w') (s : Snapshot) :
    Agree (UpToJournal R) Eq (World.restore s w) (World.restore s w') := by
  have hcheck : w'.check s.entries = w.check s.entries := by
    cases h with
    | mk hj => rfl
  unfold World.restore
  rw [hcheck]
  cases w.check s.entries with
  | error cause => exact .error rfl h
  | ok _ => exact Agree.forM (fun x _ _ h => h.restoreEntry hR x) s.entries h

end Records

end World.UpToJournal
end EntityWorld
