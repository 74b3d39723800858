/-
# Messages are a prefix code

A reader does not look past what it reads: what it makes of some bytes it makes of
them whatever follows (`Pack.Incremental`). So nothing is read from the front part of
a message. Whatever were read from it would be read from the whole message as well
and leave the rest of it over, where the message is read to its end.

Of two messages, then, neither is the beginning of the other: a peer that gets them
one after another knows where the first one ends.

Key definition: `Pack.Incremental`.
Key theorems: `Pack.incremental_readItem`, `Pack.readItem_of_strict_prefix`,
`Snapshot.Fits.prefixCode`.
-/
import EntityWorld.Proofs.Message
import Mathlib.Tactic

namespace EntityWorld
namespace Pack

/-! ### Readers that do not look ahead -/

/-- What is read stays the same when more bytes follow. -/
def Incremental {α : Type} (read : List UInt8 → Option (α × List UInt8)) : Prop :=
  ∀ bytes more x rest, read bytes = some (x, rest) → read (bytes ++ more) = some (x, rest ++ more)

namespace Incremental

variable {α β : Type} {read : List UInt8 → Option (α × List UInt8)}

theorem pure (x : α) : Incremental fun bytes => some (x, bytes) := by
  intro bytes more y rest h
  cases h
  rfl

theorem bind {next : α → List UInt8 → Option (β × List UInt8)} (h : Incremental read)
    (hnext : ∀ x, Incremental (next x)) :
    Incremental fun bytes => (read bytes).bind fun (x, rest) => next x rest := by
  intro bytes more y rest hy
  obtain ⟨⟨x, mid⟩, hx, hy⟩ := Option.bind_eq_some_iff.mp hy
  exact Option.bind_eq_some_iff.mpr ⟨(x, mid ++ more), h bytes more x mid hx,
    hnext x mid more y rest hy⟩

theorem map (h : Incremental read) (f : α → β) :
    Incremental fun bytes => (read bytes).map fun (x, rest) => (f x, rest) := by
  intro bytes more y rest hy
  obtain ⟨⟨x, mid⟩, hx, hy⟩ := Option.map_eq_some_iff.mp hy
  cases hy
  exact Option.map_eq_some_iff.mpr ⟨_, h bytes more x rest hx, rfl⟩

theorem readMany (h : Incremental read) : ∀ n, Incremental (readMany read n)
  | 0 => pure []
  | n + 1 => h.bind fun x => (readMany h n).bind fun xs => pure (x :: xs)

theorem readPair (h : Incremental read) : Incremental (readPair read) :=
  h.bind fun x => h.bind fun y => pure (x, y)

end Incremental

theorem incremental_takeBytes (n : Nat) : Incremental (takeBytes n) := by
  intro bytes more front rest h
  simp only [takeBytes] at h ⊢
  split at h
  · next hlen =>
    cases h
    have hn : n ≤ bytes.length := by
      rw [List.length_take] at hlen
      omega
    rw [List.take_append_of_le_length hn, List.drop_append_of_le_length hn, if_pos hlen]
  · cases h

theorem incremental_takeWord (width : Nat) : Incremental (takeWord width) :=
  (incremental_takeBytes width).map ofBigEndian

theorem Size.incremental_read : ∀ size : Size, Incremental size.read
  | known n => .pure n
  | written width => incremental_takeWord width

/-- Reading a value stops behind it, as reading its parts does. -/
theorem incremental_readItem (depth : Nat) : Incremental (readItem depth) := by
  induction depth using Nat.strong_induction_on with
  | _ depth ih =>
    intro bytes more item rest h
    cases bytes with
    | nil =>
      rw [readItem] at h
      cases h
    | cons b bytes =>
      rw [List.cons_append]
      unfold readItem at h ⊢
      cases hb : Lead.ofByte b with
      | whole item' =>
        simp only [hb] at h ⊢
        exact Incremental.pure item' _ _ _ _ h
      | word width make =>
        simp only [hb] at h ⊢
        exact (incremental_takeWord width).map make _ _ _ _ h
      | bytes size make =>
        simp only [hb] at h ⊢
        have hread := size.incremental_read.bind fun n =>
          (incremental_takeBytes n).bind fun content => .pure (make content)
        exact hread _ _ _ _ h
      | list size =>
        cases depth with
        | zero =>
          simp only [hb] at h
          cases h
        | succ depth =>
          simp only [hb] at h ⊢
          have hitem := ih depth (Nat.lt_succ_self depth)
          have hread := size.incremental_read.bind fun n =>
            (hitem.readMany n).bind fun items => .pure (Item.list items)
          exact hread _ _ _ _ h
      | table size =>
        cases depth with
        | zero =>
          simp only [hb] at h
          cases h
        | succ depth =>
          simp only [hb] at h ⊢
          have hitem := ih depth (Nat.lt_succ_self depth)
          have hread := size.incremental_read.bind fun n =>
            (hitem.readPair.readMany n).bind fun entries => .pure (Item.table entries)
          exact hread _ _ _ _ h
      | extension size =>
        cases depth with
        | zero =>
          simp only [hb] at h
          cases h
        | succ depth =>
          simp only [hb] at h ⊢
          have hread := size.incremental_read.bind fun n => (incremental_takeBytes 1).bind fun kind =>
            (incremental_takeBytes n).bind fun content => .pure (Item.extension (kind.headD 0) content)
          exact hread _ _ _ _ h
      | reserved =>
        simp only [hb] at h
        cases h

/-! ### Messages cut short -/

variable {bytes front : List UInt8}

/-- Where a value is read from all of some bytes, their front part is not a value. -/
theorem readItem_of_strict_prefix {depth : Nat} {item : Item} (h : Reads depth bytes item)
    (hfront : front <+: bytes) (hne : front ≠ bytes) : readItem depth front = none := by
  obtain ⟨more, rfl⟩ := hfront
  cases hr : readItem depth front with
  | none => rfl
  | some p =>
    obtain ⟨item', rest⟩ := p
    -- with the rest of the bytes behind, reading would stop where it stopped before
    have hlong := incremental_readItem depth front more item' rest hr
    have hall := h []
    rw [List.append_nil, hlong] at hall
    have hnil : rest ++ more = [] := congrArg Prod.snd (Option.some.inj hall)
    rw [(List.append_eq_nil_iff.mp hnil).2, List.append_nil] at hne
    exact absurd rfl hne

theorem decode?_of_strict_prefix {α : Type} {ofItem? : Item → Option α} {item : Item}
    (h : Reads depthLimit bytes item) (hfront : front <+: bytes) (hne : front ≠ bytes) :
    decode? ofItem? front = none := by
  rw [decode?, readItem_of_strict_prefix h hfront hne]
  rfl

end Pack

namespace Snapshot

/-- **The messages of snapshots are a prefix code.** A snapshot is read from its message,
whatever follows it, and nothing is read from a part of it at the front. So a message is
no beginning of another snapshot's message. -/
theorem Fits.prefixCode {s : Snapshot} (h : s.Fits) :
    (∀ rest, decode? (s.encode ++ rest) = some s) ∧
    (∀ front, front <+: s.encode → front ≠ s.encode → decode? front = none) ∧
    ∀ s' : Snapshot, s'.Fits → s.encode <+: s'.encode → s' = s := by
  refine ⟨decode?_encode h, fun front hfront hne => ?_, ?_⟩
  · exact Pack.decode?_of_strict_prefix (reads_encode h) hfront hne
  · rintro s' h' ⟨rest, hrest⟩
    have hread := decode?_encode h rest
    have hread' := decode?_encode h' []
    rw [List.append_nil, ← hrest, hread] at hread'
    exact (Option.some.inj hread').symm

/-- Sixteen entries, the first with the largest slot and with numbers on both sides of
the width of a byte. -/
def brimming : Snapshot :=
  ⟨⟨0xffffffff, ⟨0x100000000⟩, [0x7f, 0x80, 0xff]⟩ ::
    List.replicate 15 ⟨0x10000, ⟨0xff⟩, List.replicate 16 0⟩⟩

/-- It is read with a byte too many, not with one too few, and a snapshot whose message
goes on like its message is the same. -/
theorem prefixCode_brimming : decode? (brimming.encode ++ [0xc0]) = some brimming ∧
    decode? brimming.encode.dropLast = none ∧
    ∀ s' : Snapshot, s'.Fits → brimming.encode <+: s'.encode → s' = brimming := by
  have hfits : brimming.Fits := ⟨by decide, by decide⟩
  obtain ⟨hread, hcut, hfree⟩ := hfits.prefixCode
  refine ⟨hread _, hcut _ (List.dropLast_prefix _) fun heq => ?_, hfree⟩
  have hlength := congrArg List.length heq
  rw [List.length_dropLast] at hlength
  have hpos : 0 < brimming.encode.length := by decide +kernel
  omega

end Snapshot
end EntityWorld
