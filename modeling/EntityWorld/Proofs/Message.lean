/-
# Messages are read as they were written

`Pack.Reads` says that some bytes are read as some value whatever follows them.
The shortest form of a number is, and so is a list whose items are, one level
deeper; from this the value that a snapshot is written as is put together, and
reading the snapshot out of it gives the snapshot back (`decode?_encode`).

A list says in 32 bits how many items it has. So the entries of a snapshot and
the bytes of each payload have to be fewer than 2^32 (`Snapshot.Fits`).

Key definitions: `Pack.Reads`, `SnapshotEntry.toItem`, `Snapshot.Fits`.
Key theorems: `Pack.reads_natural`, `Pack.reads_list`, `Snapshot.reads_encode`,
`Snapshot.decode?_encode`.
-/
import EntityWorld.Snapshot
import Mathlib.Tactic

namespace EntityWorld
namespace Pack

/-! ### Words -/

theorem length_bigEndian : ∀ k n, (bigEndian k n).length = k
  | 0, _ => rfl
  | k + 1, n => congrArg (· + 1) (length_bigEndian k n)

/-- The bytes of a word continue a number by as many digits to the base 256. -/
theorem foldl_bigEndian (n : Nat) : ∀ k acc : Nat,
    (bigEndian k n).foldl (fun m b => m * 256 + b.toNat) acc = acc * 256 ^ k + n % 256 ^ k
  | 0, acc => by
    rw [pow_zero, Nat.mod_one, mul_one]
    rfl
  | k + 1, acc => by
    have hshift : n >>> (8 * k) = n / 256 ^ k := by
      rw [Nat.shiftRight_eq_div_pow, pow_mul]
      norm_num
    have hbyte : (UInt8.ofNat (n >>> (8 * k))).toNat = n / 256 ^ k % 256 := by
      rw [hshift, UInt8.toNat_ofNat']
    have ih := foldl_bigEndian n k (acc * 256 + n / 256 ^ k % 256)
    rw [bigEndian, List.foldl_cons, hbyte, ih, Nat.mod_pow_succ, pow_succ]
    ring

theorem ofBigEndian_bigEndian {k n : Nat} (h : n < 256 ^ k) : ofBigEndian (bigEndian k n) = n := by
  unfold ofBigEndian
  rw [foldl_bigEndian, Nat.mod_eq_of_lt h, zero_mul, zero_add]

theorem takeBytes_append (front rest : List UInt8) :
    takeBytes front.length (front ++ rest) = some (front, rest) := by
  simp [takeBytes]

theorem takeWord_bigEndian {k n : Nat} (h : n < 256 ^ k) (rest : List UInt8) :
    takeWord k (bigEndian k n ++ rest) = some (n, rest) := by
  have ht := takeBytes_append (bigEndian k n) rest
  rw [length_bigEndian] at ht
  rw [takeWord, ht]
  exact congrArg (fun m => some (m, rest)) (ofBigEndian_bigEndian h)

/-! ### Numbers -/

/-- Some bytes are read as a value, and reading stops behind them. -/
def Reads (depth : Nat) (bytes : List UInt8) (item : Item) : Prop :=
  ∀ rest, readItem depth (bytes ++ rest) = some (item, rest)

variable {depth n : Nat} {b : UInt8} {rest : List UInt8}

theorem readItem_whole {item : Item} (h : Lead.ofByte b = .whole item) :
    readItem depth (b :: rest) = some (item, rest) := by
  unfold readItem
  rw [h]

theorem readItem_word {width : Nat} {make : Nat → Item} (h : Lead.ofByte b = .word width make) :
    readItem depth (b :: rest) = (takeWord width rest).map fun (n, rest) => (make n, rest) := by
  unfold readItem
  rw [h]

theorem reads_word {width : Nat} {make : Nat → Item} (hb : Lead.ofByte b = .word width make)
    (h : n < 256 ^ width) : Reads depth (b :: bigEndian width n) (make n) := by
  intro rest
  rw [List.cons_append, readItem_word hb, takeWord_bigEndian h]
  rfl

theorem ofByte_natural (h : n < 0x80) : Lead.ofByte (UInt8.ofNat n) = .whole (.natural n) := by
  have hn : (UInt8.ofNat n).toNat = n := by
    rw [UInt8.toNat_ofNat']
    exact Nat.mod_eq_of_lt (by omega)
  unfold Lead.ofByte
  rw [hn]
  exact if_pos h

/-- A number is read from its shortest form. -/
theorem reads_natural (h : n < 0x10000000000000000) : Reads depth (natural n) (.natural n) := by
  unfold natural
  split_ifs with h1 h2 h3 h4
  · exact fun rest => readItem_whole (ofByte_natural h1)
  · exact reads_word rfl (by norm_num; exact h2)
  · exact reads_word rfl (by norm_num; exact h3)
  · exact reads_word rfl (by norm_num; exact h4)
  · exact reads_word rfl (by norm_num; exact h)

/-! ### Lists -/

theorem ofByte_list (h : n < 0x10) : Lead.ofByte (UInt8.ofNat (0x90 + n)) = .list (.known n) := by
  have hn : (UInt8.ofNat (0x90 + n)).toNat = 0x90 + n := by
    rw [UInt8.toNat_ofNat']
    exact Nat.mod_eq_of_lt (by omega)
  unfold Lead.ofByte
  rw [hn]
  generalize hm : 0x90 + n = m
  have hlen : m - 0x90 = n := by omega
  dsimp only
  rw [if_neg (by omega), if_neg (by omega), if_pos (by omega), hlen]

/-- The header of a list says how many items follow. -/
theorem listHeader_eq (h : n < 0x100000000) : ∃ b word size, listHeader n = b :: word ∧
    Lead.ofByte b = .list size ∧ ∀ rest, size.read (word ++ rest) = some (n, rest) := by
  unfold listHeader
  split_ifs with h1 h2
  · exact ⟨_, [], .known n, rfl, ofByte_list h1, fun _ => rfl⟩
  · exact ⟨0xdc, bigEndian 2 n, .written 2, rfl, rfl, takeWord_bigEndian (by norm_num; exact h2)⟩
  · exact ⟨0xdd, bigEndian 4 n, .written 4, rfl, rfl, takeWord_bigEndian (by norm_num; exact h)⟩

theorem readMany_flatten {parts : List (List UInt8)} {items : List Item}
    (h : List.Forall₂ (Reads depth) parts items) (rest : List UInt8) :
    readMany (readItem depth) parts.length (parts.flatten ++ rest) = some (items, rest) := by
  induction h with
  | nil => rfl
  | cons hx _ ih =>
    rw [List.flatten_cons, List.append_assoc, List.length_cons, readMany, hx]
    simp only [bind, Option.bind, ih]

/-- A list is read if each of its items is, one level up. -/
theorem reads_list {parts : List (List UInt8)} {items : List Item}
    (h : List.Forall₂ (Reads depth) parts items) (hn : parts.length < 0x100000000) :
    Reads (depth + 1) (list parts) (.list items) := by
  intro rest
  obtain ⟨b, word, size, heq, hb, hsize⟩ := listHeader_eq hn
  have hbytes : list parts ++ rest = b :: (word ++ (parts.flatten ++ rest)) := by
    rw [list, heq]
    simp
  rw [hbytes]
  unfold readItem
  rw [hb]
  simp only [hsize, bind, Option.bind, readMany_flatten h rest]

theorem reads_list_map {α : Type} {xs : List α} {bytes : α → List UInt8} {item : α → Item}
    (h : ∀ x ∈ xs, Reads depth (bytes x) (item x)) (hn : xs.length < 0x100000000) :
    Reads (depth + 1) (list (xs.map bytes)) (.list (xs.map item)) := by
  refine reads_list ?_ (by rwa [List.length_map])
  rw [List.forall₂_map_left_iff, List.forall₂_map_right_iff]
  exact List.forall₂_same.mpr h

end Pack

open Pack (Item Reads)

/-! ### Snapshots -/

namespace SnapshotEntry

/-- The value that an entry is written as. -/
def toItem (x : SnapshotEntry) : Item :=
  .list [.natural x.index.toNat, .natural x.tag.value.toNat,
    .list (x.data.map fun b => .natural b.toNat)]

theorem reads_toPack {depth : Nat} {x : SnapshotEntry} (h : x.data.length < 0x100000000) :
    Reads (depth + 2) x.toPack x.toItem := by
  have hindex : Reads (depth + 1) (Pack.natural x.index.toNat) (.natural x.index.toNat) := by
    have hlt := x.index.toNat_lt
    exact Pack.reads_natural (by omega)
  have htag : Reads (depth + 1) (Pack.natural x.tag.value.toNat) (.natural x.tag.value.toNat) :=
    Pack.reads_natural x.tag.value.toNat_lt
  have hdata : Reads (depth + 1) (Pack.list (x.data.map fun b => Pack.natural b.toNat))
      (.list (x.data.map fun b => .natural b.toNat)) := by
    refine Pack.reads_list_map (fun b _ => Pack.reads_natural ?_) h
    have hlt := b.toNat_lt
    omega
  exact Pack.reads_list (.cons hindex (.cons htag (.cons hdata .nil))) (by simp)

theorem ofItem?_toItem (x : SnapshotEntry) : ofItem? x.toItem = some x := by
  obtain ⟨i, ⟨t⟩, data⟩ := x
  have hi : (Item.natural i.toNat).toNat? UInt32.size = some i.toNat := if_pos i.toNat_lt
  have ht : (Item.natural t.toNat).toNat? UInt64.size = some t.toNat := if_pos t.toNat_lt
  have hd : (data.map fun b => Item.natural b.toNat).mapM (·.toNat? UInt8.size) =
      some (data.map (·.toNat)) := by
    induction data with
    | nil => rfl
    | cons b data ih =>
      have hb : (Item.natural b.toNat).toNat? UInt8.size = some b.toNat := if_pos b.toNat_lt
      rw [List.map_cons, List.mapM_cons, hb, ih]
      rfl
  have hback : (data.map (·.toNat)).map UInt8.ofNat = data := by simp [Function.comp_def]
  have hfields : (toItem ⟨i, ⟨t⟩, data⟩).fields? ["index", "tag", "data"] =
      some [.natural i.toNat, .natural t.toNat, .list (data.map fun b => .natural b.toNat)] := rfl
  simp only [ofItem?, hfields, bind, Option.bind, hi, ht, Item.items?, hd, hback,
    UInt32.ofNat_toNat, UInt64.ofNat_toNat]
  rfl

end SnapshotEntry

namespace Snapshot

/-- The lists of a message can hold the entries and their payloads. -/
def Fits (s : Snapshot) : Prop :=
  s.size < 0x100000000 ∧ ∀ x ∈ s.entries, x.data.length < 0x100000000

/-- The value that a snapshot is written as. -/
def toItem (s : Snapshot) : Item := .list [.list (s.entries.map SnapshotEntry.toItem)]

theorem reads_encode {depth : Nat} {s : Snapshot} (h : s.Fits) :
    Reads (depth + 4) s.encode s.toItem := by
  have hentries : Reads (depth + 3) (Pack.list (s.entries.map (·.toPack)))
      (.list (s.entries.map (·.toItem))) :=
    Pack.reads_list_map (fun x hx => SnapshotEntry.reads_toPack (h.2 x hx)) h.1
  exact Pack.reads_list (.cons hentries .nil) (by simp)

theorem ofItem?_toItem (s : Snapshot) : ofItem? s.toItem = some s := by
  obtain ⟨entries⟩ := s
  have hentries : (entries.map SnapshotEntry.toItem).mapM SnapshotEntry.ofItem? = some entries := by
    induction entries with
    | nil => rfl
    | cons x xs ih =>
      rw [List.map_cons, List.mapM_cons, SnapshotEntry.ofItem?_toItem, ih]
      rfl
  have hfields : (toItem ⟨entries⟩).fields? ["entries"] =
      some [.list (entries.map SnapshotEntry.toItem)] := rfl
  simp only [ofItem?, hfields, bind, Option.bind, Item.items?, hentries]
  rfl

/-- A snapshot is read from the bytes that it is written as, whatever follows them. -/
theorem decode?_encode {s : Snapshot} (h : s.Fits) (rest : List UInt8) :
    decode? (s.encode ++ rest) = some s := by
  have hread : Pack.readItem Pack.depthLimit (s.encode ++ rest) = some (s.toItem, rest) :=
    reads_encode h rest
  rw [decode?, Pack.decode?, hread]
  exact ofItem?_toItem s

end Snapshot
end EntityWorld
