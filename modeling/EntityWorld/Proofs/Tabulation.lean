/-
# Worlds keep their tables

The registrations of a world, one after the other in a list, are its three tables in one:
their order is the order of registration, and the list is searched for a kind or for a
tag (`World.tables`). What is done to a world from outside is asked of these tables as
requests (`Access.Asks`, `World.exists_requests`), so in every world that is reached they
are consistent, and whoever looks something up in them finds it
(`World.consistent_undergo`).

Key definitions: `World.tables`, `Access.Asks`, `World.Retains`, `World.Answered`.
Key theorems: `World.tables_registerWith`, `World.exists_requests`,
`World.exists_requests_undergo`, `World.retains_access`, `World.consistent_undergo`.
-/
import EntityWorld.Proofs.Access
import EntityWorld.Proofs.HighWater
import EntityWorld.Proofs.Overlay
import EntityWorld.Proofs.Tables
import EntityWorld.Proofs.Ticking
import EntityWorld.Proofs.Values
import Mathlib.Tactic

namespace EntityWorld

variable {κ : Type} [Family κ]

/-- The result with another view of the state that it leaves. -/
def viewed {ε σ τ α : Type} (f : σ → τ) : EStateM.Result ε σ α → EStateM.Result ε τ α
  | .ok a s => .ok a (f s)
  | .error c s => .error c (f s)

variable [DecidableEq κ]

/-- The operations that write to the tables of kinds and tags, or go through them. -/
def Operation.Tabulates : Operation κ → Prop
  | register _ | registerSynced _ _ | kill _ => True
  | _ => False

/-- What an access asks of the tables. -/
def Access.Asks (w : World κ) : Access κ → List (Tables.Request κ) → Prop
  | .operate (.register k), rs => rs = [.register k none]
  | .operate (.registerSynced k codec), rs => rs = [.register k (some codec)]
  | .operate (.kill e), rs => rs = if w.isAlive e then [.sweep e.slot] else []
  | _, rs => ∀ r ∈ rs, r.Modifies

namespace Access

/-- The registrations, with a codec or without. -/
def Registers : Access κ → Prop
  | operate (.register _) | operate (.registerSynced _ _) => True
  | _ => False

/-- The codec that an access brings for a kind. -/
def codecFor? (k : κ) : Access κ → Option (Codec (Value k))
  | operate (.registerSynced k' codec) => if h : k' = k then some (h ▸ codec) else none
  | _ => none

variable {a : Access κ}

theorem codecFor?_of_not_registers (ha : ¬ a.Registers) (k : κ) : a.codecFor? k = none := by
  unfold codecFor?
  split
  · exact (ha trivial).elim
  · rfl

omit [DecidableEq κ] in
/-- An access that neither registers nor kills changes columns at most. -/
theorem asks_cases {w : World κ} {rs : List (Tables.Request κ)} (hrs : a.Asks w rs)
    (ha : ¬ a.Registers) : (∃ e, a = operate (.kill e)) ∨ ∀ r ∈ rs, r.Modifies := by
  unfold Asks at hrs
  split at hrs
  · exact (ha trivial).elim
  · exact (ha trivial).elim
  · next e => exact Or.inl ⟨e, rfl⟩
  · exact Or.inr hrs

end Access

namespace Registration

/-- The store of a registration, if it is of the kind asked for. -/
def store? (k : κ) (r : Registration κ) : Option (Store k) :=
  if h : r.kind = k then some (h ▸ { column := r.column, codec := r.codec }) else none

variable {k k' : κ} {r : Registration κ}

theorem store?_self (r : Registration κ) :
    r.store? r.kind = some { column := r.column, codec := r.codec } := dif_pos rfl

theorem store?_of_ne (h : r.kind ≠ k) : r.store? k = none := dif_neg h

theorem column?_eq_map_store? (k : κ) (r : Registration κ) :
    r.column? k = (r.store? k).map (·.column) := by
  by_cases h : r.kind = k
  · subst h
    rw [store?_self]
    exact dif_pos rfl
  · rw [store?_of_ne h]
    exact dif_neg h

theorem store?_erase (k : κ) (i : Nat) (r : Registration κ) :
    (r.erase i).store? k = (r.store? k).map (·.modify (·.erase i)) := by
  by_cases h : r.kind = k
  · subst h
    rw [store?_self]
    exact store?_self (r.erase i)
  · rw [store?_of_ne h]
    exact store?_of_ne h

theorem store?_modifyColumn (f : Column (Value k) → Column (Value k)) :
    (r.modifyColumn k f).store? k = (r.store? k).map (·.modify f) := by
  rcases modifyColumn_cases k f r with ⟨hk, h⟩ | ⟨c, codec, rfl, h⟩
  · rw [h, store?_of_ne hk]
    rfl
  · rw [h, store?_self ⟨k, c, codec⟩, store?_self ⟨k, f c, codec⟩]
    rfl

theorem store?_modifyColumn_of_ne (hk : k' ≠ k) (f : Column (Value k) → Column (Value k)) :
    (r.modifyColumn k f).store? k' = r.store? k' := by
  rcases modifyColumn_cases k f r with ⟨-, h⟩ | ⟨c, codec, rfl, h⟩
  · rw [h]
  · rw [h, store?_of_ne hk.symm, store?_of_ne hk.symm]

theorem store?_offerCodec (codec : Option (Codec (Value k))) :
    (r.offerCodec k codec).store? k = (r.store? k).map (·.offer codec) := by
  obtain ⟨k', c, own⟩ := r
  by_cases h : k' = k
  · subst h
    have hoffer : offerCodec k' codec ⟨k', c, own⟩ = ⟨k', c, own.or codec⟩ := dif_pos rfl
    rw [hoffer, store?_self ⟨k', c, own⟩, store?_self ⟨k', c, own.or codec⟩]
    rfl
  · rw [offerCodec_of_ne h, store?_of_ne h]
    rfl

theorem store?_offerCodec_of_ne (hk : k' ≠ k) (codec : Option (Codec (Value k))) :
    (r.offerCodec k codec).store? k' = r.store? k' := by
  by_cases h : r.kind = k
  · have hne : r.kind ≠ k' := fun heq => hk (heq.symm.trans h)
    have hne' : (r.offerCodec k codec).kind ≠ k' := by rwa [kind_offerCodec]
    rw [store?_of_ne hne, store?_of_ne hne']
  · rw [offerCodec_of_ne h]

end Registration

namespace World

open Tables (Request)

/-- The tables of what is registered. -/
def tables (w : World κ) : Tables κ where
  order := w.registrations.map (·.kind)
  stores k := w.registrations.findSome? (·.store? k)
  byTag t := (w.ofTag? t).map (·.kind)

variable {w w' : World κ} {k : κ} {codec : Option (Codec (Value k))}

/-! ### Tables and lists -/

theorem tables_congr (h : w'.registrations = w.registrations) : w'.tables = w.tables := by
  unfold tables ofTag?
  rw [h]

theorem column?_eq_map_stores (w : World κ) (k : κ) :
    w.column? k = (w.tables.stores k).map (·.column) := by
  have hstore : (fun r : Registration κ => r.column? k) =
      fun r => (r.store? k).map (·.column) := funext (Registration.column?_eq_map_store? k)
  unfold column? tables
  rw [List.map_findSome?, hstore]
  rfl

theorem isRegistered_iff_stores : w.isRegistered k ↔ (w.tables.stores k).isSome := by
  rw [isRegistered_iff_column?, column?_eq_map_stores, Option.isSome_map]

/-- What is found of the kind of a registration is that registration. -/
theorem stores_of_mem {r : Registration κ} (hw : w.tables.Consistent)
    (hr : r ∈ w.registrations) :
    w.tables.stores r.kind = some { column := r.column, codec := r.codec } := by
  cases hs : w.tables.stores r.kind with
  | none =>
    have hnone := List.findSome?_eq_none_iff.mp hs r hr
    rw [Registration.store?_self] at hnone
    cases hnone
  | some s =>
    obtain ⟨r', hr', hs'⟩ := List.exists_of_findSome?_eq_some hs
    have hkind : r'.kind = r.kind := by
      by_contra hne
      rw [Registration.store?_of_ne hne] at hs'
      cases hs'
    have heq : r' = r := List.inj_on_of_nodup_map hw.nodup hr' hr hkind
    rw [heq, Registration.store?_self] at hs'
    exact hs'.symm

/-! ### Look-ups -/

theorem viewed_column (w : World κ) (k : κ) :
    viewed tables (World.column k w) = w.tables.handOut k := by
  unfold World.column Tables.handOut
  rw [column?_eq_map_stores]
  cases w.tables.stores k <;> rfl

/-- Going through the order of registration finds every registration. -/
theorem mapM_order {β : Type} (hw : w.tables.Consistent) (f : (k : κ) → Store k → β) :
    w.tables.order.mapM (fun k => (w.tables.stores k).map (f k)) =
      some (w.registrations.map fun r => f r.kind { column := r.column, codec := r.codec }) := by
  have hmap : w.tables.order.mapM (fun k => (w.tables.stores k).map (f k)) =
      w.registrations.mapM fun r => (w.tables.stores r.kind).map (f r.kind) := List.mapM_map ..
  rw [hmap]
  refine mapM_eq_some_map fun r hr => ?_
  rw [stores_of_mem hw hr]
  rfl

theorem types?_tables (hw : w.tables.Consistent) : w.tables.types? = some w.types :=
  mapM_order hw fun k _ => (tagOf k, typeName k)

theorem typesAt?_tables (hw : w.tables.Consistent) {e : Handle} (he : w.isAlive e) :
    w.tables.typesAt? e.slot = some (w.typesOf e) := by
  unfold Tables.typesAt? typesOf
  rw [mapM_order hw fun k s => (tagOf k, s.column.contains e.slot), if_pos he, Option.map_some,
    List.filter_map, List.map_map]
  rfl

omit [DecidableEq κ] in
theorem entry?_eq (keep : Handle → TypeTag → Bool) (e : Handle) (r : Registration κ) :
    Store.entry? keep e { column := r.column, codec := r.codec } =
      if keep e r.tag then (r.encode? e.slot).map fun data =>
        { index := e.index, tag := r.tag, data := data } else none := by
  obtain ⟨k, c, codec⟩ := r
  simp only [Store.entry?, Registration.encode?_eq, Registration.tag]
  cases codec with
  | none => simp
  | some codec => rw [Option.bind_some, Option.map_map]; rfl

theorem capture?_tables (hw : w.tables.Consistent) (keep : Handle → TypeTag → Bool) :
    w.tables.capture? w.entities keep = some (w.captureWhere keep) := by
  have hrow : ∀ e, w.tables.entriesOf? keep e = some (w.registrations.filterMap fun r =>
      if keep e r.tag then (r.encode? e.slot).map fun data =>
        { index := e.index, tag := r.tag, data := data } else none) := by
    intro e
    unfold Tables.entriesOf?
    rw [mapM_order hw fun _ => Store.entry? keep e, Option.map_some, List.filterMap_map]
    simp only [Function.comp_def, id, entry?_eq]
  unfold Tables.capture? captureWhere
  rw [mapM_eq_some_map fun e _ => hrow e, Option.map_some, List.flatMap]

theorem synced?_tables (hw : w.tables.Consistent) (t : TypeTag) :
    w.tables.synced? t = some (w.synced? t) := by
  have htag : w.tables.byTag t = (w.ofTag? t).map (·.kind) := rfl
  unfold Tables.synced? World.synced?
  rw [htag]
  cases hr : w.ofTag? t with
  | none => rfl
  | some r =>
    rw [Option.map_some, Option.bind_some]
    simp only [stores_of_mem hw (mem_of_ofTag? hr)]
    rfl

/-! ### Changes -/

/-- What goes through all registrations and changes the store of one kind. -/
theorem tables_map {g : Registration κ → Registration κ} {f : Store k → Store k}
    (hkind : ∀ r, (g r).kind = r.kind) (hself : ∀ r, (g r).store? k = (r.store? k).map f)
    (hother : ∀ r k', k' ≠ k → (g r).store? k' = r.store? k') :
    tables { w with registrations := w.registrations.map g } =
      w.tables.put k ((w.tables.stores k).map f) := by
  have horder : (w.registrations.map g).map (·.kind) = w.registrations.map (·.kind) := by
    rw [List.map_map]
    exact List.map_congr_left fun r _ => hkind r
  have hstores : (fun k' => (w.registrations.map g).findSome? (·.store? k')) =
      Function.update w.tables.stores k ((w.tables.stores k).map f) := by
    funext k'
    rw [List.findSome?_map]
    by_cases hk : k' = k
    · subst hk
      rw [Function.update_self, tables, List.map_findSome?]
      congr 1
      exact funext hself
    · rw [Function.update_of_ne hk]
      congr 1
      exact funext fun r => hother r k' hk
  have htag : (fun t => ((w.registrations.map g).find? (·.tag == t)).map (·.kind)) =
      w.tables.byTag := by
    funext t
    rw [find?_tag_map fun r => congrArg tagOf (hkind r), Option.map_map]
    congr 1
    exact funext hkind
  simp only [tables, Tables.put, Tables.mk.injEq]
  exact ⟨horder, hstores, htag⟩

theorem tables_rework (f : Column (Value k) → Column (Value k)) :
    (w.rework k f).tables = w.tables.modify k f :=
  tables_map (fun _ => Registration.kind_modifyColumn) (fun _ => Registration.store?_modifyColumn f)
    fun _ _ hk => Registration.store?_modifyColumn_of_ne hk f

theorem tables_offer (codec : Option (Codec (Value k))) :
    (w.offer k codec).tables = w.tables.put k ((w.tables.stores k).map (·.offer codec)) :=
  tables_map (fun _ => Registration.kind_offerCodec)
    (fun _ => Registration.store?_offerCodec codec)
    fun _ _ hk => Registration.store?_offerCodec_of_ne hk codec

theorem tables_enroll (hk : w.tables.stores k = none) (ht : w.ofTag? (tagOf k) = none)
    (codec : Option (Codec (Value k))) : (w.enroll k codec).tables = w.tables.enroll k codec := by
  let r : Registration κ := { kind := k, codec := codec }
  have hstores : (fun k' => (w.registrations ++ [r]).findSome? (·.store? k')) =
      Function.update w.tables.stores k (some { codec := codec }) := by
    funext k'
    rw [List.findSome?_append]
    by_cases hkk : k' = k
    · subst hkk
      have hnone : w.registrations.findSome? (·.store? k') = none := hk
      rw [hnone, Function.update_self, Option.none_or, List.findSome?_singleton]
      exact Registration.store?_self r
    · have hother : r.store? k' = none := Registration.store?_of_ne fun heq => hkk heq.symm
      rw [Function.update_of_ne hkk, List.findSome?_singleton, hother, Option.or_none]
      rfl
  have htag : (fun t => ((w.registrations ++ [r]).find? (·.tag == t)).map (·.kind)) =
      Function.update w.tables.byTag (tagOf k) (some k) := by
    funext t
    rw [List.find?_append]
    by_cases htt : t = tagOf k
    · subst htt
      have hnone : w.registrations.find? (·.tag == tagOf k) = none := ht
      have hself : [r].find? (·.tag == tagOf k) = some r := List.find?_cons_of_pos (beq_self_eq_true _)
      rw [hnone, hself, Function.update_self]
      rfl
    · have hother : [r].find? (·.tag == t) = none := by
        simpa [r, Registration.tag] using fun heq => htt heq.symm
      rw [hother, Function.update_of_ne htt, Option.or_none]
      rfl
  simp only [tables, World.enroll, Tables.enroll, Tables.mk.injEq, List.map_append]
  exact ⟨rfl, hstores, htag⟩

theorem tables_leave (hw : w.tables.Consistent) (e : Handle) (pool : SlotPool) :
    (w.leave e pool).tables = w.tables.sweep e.slot := by
  obtain ⟨horder, htag, -⟩ := Tables.foldl_erase e.slot hw.nodup w.tables
  have hstores : ∀ k, (w.leave e pool).tables.stores k = (w.tables.sweep e.slot).stores k := by
    intro k
    rw [hw.stores_sweep]
    simp only [tables, World.leave, List.findSome?_map, List.map_findSome?]
    congr 1
    exact funext fun r => Registration.store?_erase k e.slot r
  have htag' : ∀ t, (w.leave e pool).tables.byTag t = (w.tables.sweep e.slot).byTag t := by
    intro t
    have hsame : (w.tables.sweep e.slot).byTag t = w.tables.byTag t := congrFun htag t
    rw [hsame]
    simp only [tables, World.leave, ofTag?]
    rw [find?_tag_map fun r => Registration.tag_erase r e.slot, Option.map_map]
    rfl
  have horder' : (w.leave e pool).tables.order = (w.tables.sweep e.slot).order := by
    have hsame : (w.tables.sweep e.slot).order = w.tables.order := horder
    rw [hsame]
    simp only [tables, World.leave, List.map_map]
    rfl
  exact Tables.ext horder' (funext hstores) (funext htag')

/-! ### Registrations -/

/-- A world registers a kind as its tables do. -/
theorem tables_registerWith (hw : w.tables.Consistent) (k : κ) (codec : Option (Codec (Value k))) :
    w.tables.registerWith w.settings.repeats k codec =
      some (viewed tables ((World.registerWith k codec >>= fun _ => World.column k) w)) := by
  unfold Tables.registerWith
  cases hs : w.tables.stores k with
  | some s =>
    have hk : w.isRegistered k := isRegistered_iff_stores.mpr (Option.isSome_of_eq_some hs)
    have hr := registerWith_of_isRegistered hk codec
    cases hrep : w.settings.repeats with
    | reject =>
      rw [hrep] at hr
      rw [bind_of_error hr]
      rfl
    | accept =>
      rw [hrep] at hr
      rw [bind_of_ok hr, viewed_column, tables_offer, hs]
      rfl
  | none =>
    have hk : ¬ w.isRegistered k := by
      rw [isRegistered_iff_stores, hs]
      exact Bool.false_ne_true
    have hr := registerWith_of_not_isRegistered hk codec
    have htag : w.tables.byTag (tagOf k) = (w.ofTag? (tagOf k)).map (·.kind) := rfl
    rw [htag]
    cases ht : w.ofTag? (tagOf k) with
    | some other =>
      rw [ht] at hr
      rw [bind_of_error hr, Option.map_some]
      simp only [stores_of_mem hw (mem_of_ofTag? ht)]
      rfl
    | none =>
      rw [ht] at hr
      rw [bind_of_ok hr, viewed_column, tables_enroll hs ht]
      rfl

/-- What is handed out afterwards does not change the world. -/
theorem left_registerWith (k : κ) (codec : Option (Codec (Value k))) (w : World κ) :
    Tables.left (viewed tables ((World.registerWith k codec >>= fun _ => World.column k) w)) =
      (after (World.registerWith k codec) w).tables := by
  cases hr : World.registerWith k codec w with
  | ok _ u =>
    rw [bind_of_ok hr, after_of_ok hr, viewed_column]
    unfold Tables.handOut
    cases u.tables.stores k <;> rfl
  | error c u =>
    rw [bind_of_error hr, after_of_error hr]
    rfl

/-! ### Accesses -/

theorem serve_register (hw : w.tables.Consistent) (k : κ) (codec : Option (Codec (Value k))) :
    w.tables.serve w.settings.repeats [.register k codec] =
      some (after (World.registerWith k codec) w).tables := by
  have happly : (Request.register k codec).apply w.settings.repeats w.tables =
      (w.tables.registerWith w.settings.repeats k codec).map Tables.left := rfl
  rw [Tables.serve_cons, happly, tables_registerWith hw, Option.map_some, left_registerWith]
  rfl

/-- A kill goes through all stores. -/
theorem tables_kill (hw : w.tables.Consistent) (e : Handle) : (after (World.kill e) w).tables =
    if w.isAlive e then w.tables.sweep e.slot else w.tables := by
  by_cases he : w.isAlive e
  · obtain ⟨pool, hk⟩ : ∃ pool, SlotPool.kill e w.pool = .ok () pool := ⟨_, if_pos he⟩
    rw [after_of_ok (kill_of_ok hk), tables_leave hw, if_pos he]
  · have hk : SlotPool.kill e w.pool = .error (.notAlive e) w.pool := if_neg he
    rw [after_of_error (kill_of_error hk), if_neg he]

/-- Some changes of columns. -/
def Reworked (w u : World κ) : Prop :=
  ∃ rs : List (Request κ), (∀ r ∈ rs, r.Modifies) ∧
    w.tables.serve w.settings.repeats rs = some u.tables

theorem reworked_of_eq {u : World κ} (h : u.registrations = w.registrations) : w.Reworked u :=
  ⟨[], by simp, congrArg some (tables_congr h).symm⟩

theorem reworked_rework {u : World κ} (f : Column (Value k) → Column (Value k))
    (h : u.registrations = (w.rework k f).registrations) : w.Reworked u := by
  refine ⟨[.modify k f], by simp [Request.Modifies], ?_⟩
  rw [tables_congr h, tables_rework]
  rfl

theorem Reworked.trans {u v : World κ} (h : w.Reworked u) (hset : u.settings = w.settings)
    (h' : u.Reworked v) : w.Reworked v := by
  obtain ⟨rs, hrs, hserve⟩ := h
  obtain ⟨rs', hrs', hserve'⟩ := h'
  refine ⟨rs ++ rs', fun r hr => (List.mem_append.mp hr).elim (hrs r) (hrs' r), ?_⟩
  rw [Tables.serve_append, hserve, ← hset]
  exact hserve'

/-- A replay changes columns only. -/
theorem reworked_replay (hp : w.pool.WellFormed) {xs : List SnapshotEntry}
    (hr : ∀ x ∈ xs, w.Replayable x) : w.Reworked (w.replay xs) := by
  have hreplay := replay_induction (motive := fun _ u => u.settings = w.settings ∧ w.Reworked u)
    hp hr [] ⟨rfl, reworked_of_eq rfl⟩ (fun {_ u _ _} hu _ _ => ⟨hu.1, hu.2.trans hu.1 (reworked_of_eq rfl)⟩)
    fun {_ u _ _} v hu _ _ => ⟨hu.1, hu.2.trans hu.1 (reworked_rework _ rfl)⟩
  exact hreplay.2

theorem reworked_of_outcome {u : World κ} {op : Operation κ} {xs : List Event}
    (hp : w.pool.WellFormed) (h : Outcome w op xs u) (hop : ¬ op.Tabulates) : w.Reworked u := by
  cases h with
  | register | registerSynced | offer | kill => exact (hop trivial).elim
  | add | emplace | remove => exact reworked_rework _ rfl
  | edit | editAt | editAll => exact reworked_rework _ rfl
  | restore hr => exact reworked_replay hp hr
  | _ => exact reworked_of_eq rfl

/-- Whatever is done to a world from outside is asked of its tables. -/
theorem exists_requests (hp : w.pool.WellFormed) (hw : w.tables.Consistent) (a : Access κ) :
    ∃ rs, a.Asks w rs ∧ w.tables.serve w.settings.repeats rs = some (a.apply w).tables := by
  cases a with
  | operate op =>
    have houtcome := op.outcome_apply hp
    change ∃ rs, _ ∧ _ = some (op.apply w).tables
    cases op with
    | register k => exact ⟨_, rfl, serve_register hw k none⟩
    | registerSynced k codec => exact ⟨_, rfl, serve_register hw k (some codec)⟩
    | kill e =>
      refine ⟨_, rfl, ?_⟩
      have hkill := tables_kill hw e
      change (Operation.apply (.kill e) w).tables = _ at hkill
      rw [hkill]
      split <;> rfl
    | _ => exact reworked_of_outcome hp houtcome id
  | column k f =>
    change w.Reworked (after (modifyColumn k f) w)
    rw [after_modifyColumn]
    split
    · exact reworked_rework f rfl
    · exact reworked_of_eq rfl
  | labels | journal => exact reworked_of_eq (w := w) rfl

theorem settings_access (hp : w.pool.WellFormed) (a : Access κ) :
    (a.apply w).settings = w.settings := by
  cases a with
  | operate op => exact settings_apply hp op
  | column k f =>
    change (after (modifyColumn k f) w).settings = w.settings
    rw [after_modifyColumn]
    split <;> rfl
  | labels | journal => rfl

theorem consistent_access (hp : w.pool.WellFormed) (hw : w.tables.Consistent) (a : Access κ) :
    (a.apply w).tables.Consistent ∧ w.tables.Extends (a.apply w).tables := by
  obtain ⟨rs, -, hserve⟩ := exists_requests hp hw a
  obtain ⟨u, hu, hdone⟩ := hw.serve w.settings.repeats rs
  cases hserve.symm.trans hu
  exact hdone

/-- What some accesses ask of the tables, one after another. -/
def Asked : World κ → List (Access κ) → List (Request κ) → Prop
  | _, [], rs => rs = []
  | w, a :: as, rs => ∃ xs ys, a.Asks w xs ∧ Asked (a.apply w) as ys ∧ rs = xs ++ ys

/-- A run of accesses is a run of requests. -/
theorem exists_requests_undergo (hp : w.pool.WellFormed) (hw : w.tables.Consistent)
    (as : List (Access κ)) : (w.undergo as).settings = w.settings ∧
      (w.undergo as).tables.Consistent ∧ w.tables.Extends (w.undergo as).tables ∧
      ∃ rs, w.Asked as rs ∧ w.tables.serve w.settings.repeats rs = some (w.undergo as).tables := by
  induction as generalizing w with
  | nil => exact ⟨rfl, hw, .refl _, [], rfl, rfl⟩
  | cons a as ih =>
    obtain ⟨xs, hxs, hfirst⟩ := exists_requests hp hw a
    obtain ⟨hcons, hext⟩ := consistent_access hp hw a
    have hset := settings_access hp a
    obtain ⟨hset', hcons', hext', ys, hys, hrest⟩ := ih (pool_wellFormed_access hp a) hcons
    refine ⟨hset'.trans hset, hcons', hext.trans hext', xs ++ ys, ⟨xs, ys, hxs, hys, rfl⟩, ?_⟩
    rw [Tables.serve_append, hfirst, ← hset]
    exact hrest

/-! ### What accesses keep -/

/-- After an access the kinds of before are at their places in the order, and each has its
store, with all that is in it if the access is a registration. A codec that is there
stays; one that is not comes with a registration of the kind that brings it, under a rule
that accepts repeats. -/
def Retains (w : World κ) (a : Access κ) : Prop :=
  w.tables.order <+: (a.apply w).tables.order ∧ ∀ k s, w.tables.stores k = some s →
    ∃ s', (a.apply w).tables.stores k = some s' ∧ (a.Registers → s'.column = s.column) ∧
      s'.codec = if w.settings.repeats = .accept then s.codec.or (a.codecFor? k) else s.codec

theorem stores_register (hw : w.tables.Consistent) {s : Store k} (hs : w.tables.stores k = some s)
    (k' : κ) (codec : Option (Codec (Value k'))) :
    ∃ s', (after (World.registerWith k' codec) w).tables.stores k = some s' ∧
      s'.column = s.column ∧ s'.codec = if w.settings.repeats = .accept then
        s.codec.or (if heq : k' = k then heq ▸ codec else none) else s.codec := by
  obtain ⟨r, s', hr, hs', hkeep⟩ := hw.stores_registerWith w.settings.repeats k' codec hs
  rw [tables_registerWith hw, Option.some.injEq] at hr
  rw [← hr, left_registerWith] at hs'
  exact ⟨s', hs', hkeep⟩

/-- What is no registration leaves the kinds as they are, and their codecs. -/
theorem resembles_access (hp : w.pool.WellFormed) (hw : w.tables.Consistent) {a : Access κ}
    (ha : ¬ a.Registers) : w.tables.Resembles (a.apply w).tables := by
  obtain ⟨rs, hrs, hserve⟩ := exists_requests hp hw a
  rcases Access.asks_cases hrs ha with ⟨e, rfl⟩ | hmod
  · have hkill : (Access.apply (.operate (.kill e)) w).tables = _ := tables_kill hw e
    rw [hkill]
    split
    · exact hw.resembles_sweep e.slot
    · exact .refl _
  · exact Tables.resembles_serve hmod hserve

theorem retains_access (hp : w.pool.WellFormed) (hw : w.tables.Consistent) (a : Access κ) :
    w.Retains a := by
  refine ⟨(consistent_access hp hw a).2.order, fun k s hs => ?_⟩
  by_cases ha : a.Registers
  · match a, ha with
    | .operate (.register k'), _ =>
      obtain ⟨s', hs', hcol, hc⟩ := stores_register hw hs k' none
      refine ⟨s', hs', fun _ => hcol, hc.trans ?_⟩
      congr 2
      exact dite_eq_right_iff.mpr fun heq => by subst heq; rfl
    | .operate (.registerSynced k' codec), _ =>
      obtain ⟨s', hs', hcol, hc⟩ := stores_register hw hs k' (some codec)
      refine ⟨s', hs', fun _ => hcol, hc.trans ?_⟩
      congr 2
      have hown : (Access.operate (.registerSynced k' codec)).codecFor? k =
          if h : k' = k then some (h ▸ codec) else none := rfl
      rw [hown]
      by_cases hk : k' = k
      · subst hk
        simp only [dite_true]
      · rw [dif_neg hk, dif_neg hk]
  · obtain ⟨s', hs', hc⟩ := (resembles_access hp hw ha).codec k s hs
    refine ⟨s', hs', fun h => (ha h).elim, ?_⟩
    rw [Access.codecFor?_of_not_registers ha, Option.or_none, ite_self]
    exact hc

/-! ### Restoring -/

/-- While a snapshot that passed the check is restored, each tag stands for what it stood
for before. -/
theorem synced?_during (hp : w.pool.WellFormed) (hw : w.tables.Consistent) {s : Snapshot}
    (hs : w.check s.entries = .ok ()) {xs : List SnapshotEntry} (hxs : xs <+: s.entries) :
    ∃ u, xs.forM restoreEntry w = .ok () u ∧ u.tables.Consistent ∧
      ∀ t, u.tables.synced? t = some (w.synced? t) := by
  have hr : ∀ x ∈ xs, w.Replayable x := fun x hx => replayable_of_check hs x (hxs.subset hx)
  obtain ⟨rs, hrs, hserve⟩ := reworked_replay hp hr
  obtain ⟨u, hu, hcons, -⟩ := hw.serve w.settings.repeats rs
  cases hserve.symm.trans hu
  refine ⟨w.replay xs, forM_restoreEntry_eq hp hr, hcons, fun t => ?_⟩
  rw [(Tables.resembles_serve hrs hserve).synced?_eq hw hcons, synced?_tables hw]

/-! ### Registering several kinds -/

/-- Registers some kinds for snapshots, one after another. It stops at the first that fails. -/
def registerEach (xs : List ((k : κ) × Codec (Value k))) : Action κ Unit :=
  xs.forM fun x => World.registerSynced x.1 x.2

omit [Family κ] [DecidableEq κ] in
theorem registerStock_eq [Family κ] [DecidableEq κ] : registerStock = registerEach
    (κ := Stocked κ) [⟨.transform, Transform.codec⟩, ⟨.uiTransform, UITransform.codec⟩,
      ⟨.particle, Particle.codec⟩, ⟨.star, Star.codec⟩] := by
  have hlast : World.registerSynced (κ := Stocked κ) .star Star.codec =
      (World.registerSynced .star Star.codec >>= fun _ => pure ()) := (bind_pure_unit ..).symm
  unfold registerStock
  rw [hlast]
  rfl

/-- It comes to registering the first of them. -/
theorem exists_registerEach (xs : List ((k : κ) × Codec (Value k))) (w : World κ) :
    ∃ ys, ys <+: xs ∧ after (registerEach xs) w =
      w.undergo (ys.map fun x => .operate (.registerSynced x.1 x.2)) := by
  induction xs generalizing w with
  | nil => exact ⟨[], List.prefix_rfl, rfl⟩
  | cons x xs ih =>
    have hcons : registerEach (x :: xs) =
        (World.registerSynced x.1 x.2 >>= fun _ => registerEach xs) := rfl
    rw [hcons]
    cases hr : World.registerSynced x.1 x.2 w with
    | ok _ u =>
      obtain ⟨ys, hys, hrest⟩ := ih u
      refine ⟨x :: ys, (List.prefix_cons_inj x).mpr hys, ?_⟩
      have hfirst : (Access.operate (.registerSynced x.1 x.2)).apply w = u := after_of_ok hr
      rw [after_bind_of_ok hr, hrest, List.map_cons, undergo_cons, hfirst]
    | error c u =>
      refine ⟨[x], (List.prefix_cons_inj x).mpr List.nil_prefix, ?_⟩
      have hfirst : (Access.operate (.registerSynced x.1 x.2)).apply w = u := after_of_error hr
      rw [after_bind_of_error hr, List.map_cons, undergo_cons, hfirst]
      rfl

/-! ### Worlds that are reached -/

/-- Who looks something up in the tables of a world finds what the world says. -/
structure Answered (w : World κ) : Prop where
  types : w.tables.types? = some w.types
  typesAt : ∀ e, w.isAlive e → w.tables.typesAt? e.slot = some (w.typesOf e)
  capture : ∀ keep, w.tables.capture? w.entities keep = some (w.captureWhere keep)
  synced : ∀ t, w.tables.synced? t = some (w.synced? t)
  /-- Also between the entries of a snapshot that passed the check. -/
  restore : ∀ s : Snapshot, w.check s.entries = .ok () → ∀ xs, xs <+: s.entries →
    ∃ u, xs.forM restoreEntry w = .ok () u ∧ ∀ t, u.tables.synced? t = some (w.synced? t)

theorem answered (hp : w.pool.WellFormed) (hw : w.tables.Consistent) : w.Answered where
  types := types?_tables hw
  typesAt _ he := typesAt?_tables hw he
  capture := capture?_tables hw
  synced := synced?_tables hw
  restore s hs xs hxs := by
    obtain ⟨u, hu, -, hsame⟩ := synced?_during hp hw hs hxs
    exact ⟨u, hu, hsame⟩

theorem tables_of_ofSettings? {s : Settings} (hs : ofSettings? s = some w) : w.tables = {} := by
  rw [eq_of_ofSettings? hs]
  rfl

/-- **The tables tell of the same kinds.** Whatever is done to a world, under either rule
about repeats, its tables are those that the requests made of them lead to, and no look-up
of these misses. They are consistent, so no two registered kinds share a tag. A
registration, of one kind or of several, is one of what may be done; whatever comes next,
what is registered stays. A kill goes to every store once, and those who read the tables
find what they look up. -/
theorem consistent_undergo {s : Settings} (hs : ofSettings? s = some w) (as : List (Access κ)) :
    let u := w.undergo as
    (∃ rs, w.Asked as rs ∧ Tables.serve s.repeats {} rs = some u.tables) ∧
    u.tables.Consistent ∧
    (∀ k ∈ u.tables.order, ∀ k' ∈ u.tables.order, tagOf k = tagOf k' → k = k') ∧
    (∀ k codec, u.tables.registerWith s.repeats k codec =
      some (viewed tables ((World.registerWith k codec >>= fun _ => World.column k) u))) ∧
    (∀ xs, ∃ ys, ys <+: xs ∧ after (registerEach xs) u =
      u.undergo (ys.map fun x => .operate (.registerSynced x.1 x.2))) ∧
    (∀ a, u.Retains a) ∧
    (∀ bs, u.tables.Extends (u.undergo bs).tables) ∧
    (∀ e, u.isAlive e → (after (World.kill e) u).tables = u.tables.sweep e.slot ∧
      ∀ k, u.tables.order.count k = (if (u.tables.stores k).isSome then 1 else 0) ∧
        (u.tables.sweep e.slot).stores k = (u.tables.stores k).map (·.modify (·.erase e.slot))) ∧
    u.Answered := by
  intro u
  have hp₀ := (wellFormed_of_ofSettings? hs).pool
  have hempty := tables_of_ofSettings? hs
  have hset₀ : w.settings = s := by rw [eq_of_ofSettings? hs]
  have hp : u.pool.WellFormed := pool_wellFormed_undergo hp₀ as
  obtain ⟨hset, hu, -, rs, hrs, hserve⟩ :=
    exists_requests_undergo hp₀ (hempty ▸ Tables.consistent_empty) as
  rw [hset₀] at hset
  rw [hempty, hset₀] at hserve
  refine ⟨⟨rs, hrs, hserve⟩, hu, fun k hk k' hk' => hu.tagOf_inj hk hk', fun k codec => ?_,
    fun xs => exists_registerEach xs u, retains_access hp hu, fun bs => ?_, fun e he => ?_,
    answered hp hu⟩
  · rw [← hset]
    exact tables_registerWith hu k codec
  · exact (exists_requests_undergo hp hu bs).2.2.1
  · refine ⟨?_, fun k => ⟨hu.count_order k, hu.stores_sweep e.slot k⟩⟩
    rw [tables_kill hu, if_pos he]

end World

/-- A kind that goes by the name of a stock kind. -/
inductive Namesake where
  | star
deriving DecidableEq

instance : Family Namesake where
  Value _ := Star
  typeName _ := "Star"

namespace World

/-- The namesake is registered first, so the stock kind is refused, and is given a codec
after somebody has the component. -/
def namesakes : List (Access (Stocked Namesake)) :=
  [.operate (.register (.custom .star)), .operate (.registerSynced .transform Transform.codec),
    .operate (.registerSynced .star Star.codec), .operate .spawn,
    .operate (.add (.custom .star) ⟨0, 0⟩ {}),
    .operate (.registerSynced (.custom .star) Star.codec)]

theorem consistent_undergo_namesakes :
    let w := World.undergo {} namesakes
    w.tables.order = [.custom .star, .transform] ∧
      w.tables.byTag (tagOf (κ := Stocked Namesake) .star) = some (.custom .star) ∧
      w.tables.types? = some w.types ∧ w.types.map (·.2) = ["Star", "Transform"] := by
  intro w
  have hstart : ofSettings? {} = some ({} : World (Stocked Namesake)) := rfl
  obtain ⟨-, hw, -, -, -, -, -, -, hanswered⟩ := consistent_undergo hstart namesakes
  have horder : w.tables.order = [.custom .star, .transform] := by decide +kernel
  refine ⟨horder, (hw.byTag_iff _ _).mpr ⟨?_, rfl⟩, hanswered.types, by decide +kernel⟩
  exact horder ▸ List.mem_cons_self

end World
end EntityWorld
