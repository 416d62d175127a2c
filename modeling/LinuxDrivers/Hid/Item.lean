/-
# `LinuxDrivers.Hid.Item` — the items of a report descriptor

A report descriptor is a sequence of bytes that a HID device hands out and `hid-core.c` parses.
`fetch_item` takes one item off it:

    a short item   tag, type and size in one byte, then 0, 1, 2 or 4 bytes, the lowest first
    a long item    tag 15 in the first byte, then the size and the tag, then the data

Nothing is fetched if the bytes end before the item does.

**Proved here.**

    the short items and their bytes are a framing: what is encoded is fetched, and what is fetched
    was encoded                                              (`shortItems`)
-/
import LinuxDrivers.Lib.Framing
import LinuxDrivers.Lib.Memory
import LinuxDrivers.Basic

namespace LinuxDrivers.Hid

open LinuxDrivers.Lib

/-- The data of a short item, by its size. -/
inductive ItemData where
  | none
  | u8 (x : Byte)
  | u16 (x : BitVec 16)
  | u32 (x : Word)
  deriving DecidableEq, Repr

/-- A short item: `type` is main, global, local or reserved. -/
structure ShortItem where
  type : BitVec 2
  tag : BitVec 4
  data : ItemData
  deriving DecidableEq, Repr

inductive HidItem where
  | short (item : ShortItem)
  | long (type : BitVec 2) (tag : Byte) (longdata : List Byte)
  deriving DecidableEq, Repr

def hidItemTagLong : BitVec 4 := 15

/-- `(b >> 2) & 3` -/
def typeOf (b : Byte) : BitVec 2 := b.extractLsb' 2 2

/-- `(b >> 4) & 15` -/
def tagOf (b : Byte) : BitVec 4 := b.extractLsb' 4 4

/-- `b & 3` -/
def sizeOf (b : Byte) : BitVec 2 := b.extractLsb' 0 2

/-- The data of a short item, by the two bits of its size; `le16_to_cpu` and `le32_to_cpu`. -/
def fetchData : BitVec 2 → List Byte → Option (ItemData × List Byte)
  | 0, start => some (.none, start)
  | 1, x :: start => some (.u8 x, start)
  | 2, x₀ :: x₁ :: start => some (.u16 (x₁ ++ x₀), start)
  | 3, x₀ :: x₁ :: x₂ :: x₃ :: start => some (.u32 (x₃ ++ x₂ ++ x₁ ++ x₀), start)
  | _, _ => none

/-- The size and the tag of a long item, and its data. -/
def fetchLong (type : BitVec 2) : List Byte → Option (HidItem × List Byte)
  | size :: tag :: start =>
      if start.length < size.toNat then none
      else some (.long type tag (start.take size.toNat), start.drop size.toNat)
  | _ => none

/-- `fetch_item(start, end, item)`, with the bytes from `start` to `end` and those that are
left. -/
def fetchItem : List Byte → Option (HidItem × List Byte)
  | [] => none
  | b :: start =>
      if tagOf b = hidItemTagLong then fetchLong (typeOf b) start
      else
        (fetchData (sizeOf b) start).map
          (fun x => (.short ⟨typeOf b, tagOf b, x.1⟩, x.2))

/-- The next item, if it is a short one: the parser has no use for others. -/
def fetchShort (start : List Byte) : Option (ShortItem × List Byte) :=
  match fetchItem start with
  | some (.short item, rest) => some (item, rest)
  | _ => none

/-! ## The encoding of short items -/

/-- `item->size`, before a 3 is made a 4 -/
def ItemData.size : ItemData → BitVec 2
  | .none => 0
  | .u8 _ => 1
  | .u16 _ => 2
  | .u32 _ => 3

/-- The bytes of the data, the lowest first. -/
def ItemData.bytes : ItemData → List Byte
  | .none => []
  | .u8 x => [x]
  | .u16 x => [x.extractLsb' 0 8, x.extractLsb' 8 8]
  | .u32 x => [x.extractLsb' 0 8, x.extractLsb' 8 8, x.extractLsb' 16 8, x.extractLsb' 24 8]

def ShortItem.head (item : ShortItem) : Byte := item.tag ++ item.type ++ item.data.size

def ShortItem.bytes (item : ShortItem) : List Byte := item.head :: item.data.bytes

theorem head_fields (tag : BitVec 4) (type size : BitVec 2) :
    tagOf (tag ++ type ++ size) = tag ∧ typeOf (tag ++ type ++ size) = type ∧
      sizeOf (tag ++ type ++ size) = size := by
  revert tag type size
  decide

theorem head_of_fields (b : Byte) : tagOf b ++ typeOf b ++ sizeOf b = b := by
  revert b
  decide

theorem append_extract (x : BitVec 16) : x.extractLsb' 8 8 ++ x.extractLsb' 0 8 = x := by
  apply BitVec.eq_of_getLsbD_eq
  intro i hi
  simp only [BitVec.getLsbD_append, BitVec.getLsbD_extractLsb']
  grind

theorem extract_append (x₁ x₀ : Byte) :
    (x₁ ++ x₀ : BitVec 16).extractLsb' 0 8 = x₀ ∧ (x₁ ++ x₀ : BitVec 16).extractLsb' 8 8 = x₁ := by
  constructor
  all_goals
    apply BitVec.eq_of_getLsbD_eq
    intro i hi
    simp only [BitVec.getLsbD_append, BitVec.getLsbD_extractLsb']
    grind

theorem append_extract_word (x : Word) :
    x.extractLsb' 24 8 ++ x.extractLsb' 16 8 ++ x.extractLsb' 8 8 ++ x.extractLsb' 0 8 = x := by
  apply BitVec.eq_of_getLsbD_eq
  intro i hi
  simp only [BitVec.getLsbD_append, BitVec.getLsbD_extractLsb']
  grind

theorem extract_append_word (x₃ x₂ x₁ x₀ : Byte) :
    ItemData.bytes (.u32 (x₃ ++ x₂ ++ x₁ ++ x₀)) = [x₀, x₁, x₂, x₃] := by
  have hbyte : ∀ (k : Nat) (x : Byte),
      (∀ i < 8, (x₃ ++ x₂ ++ x₁ ++ x₀ : Word).getLsbD (k + i) = x.getLsbD i) →
      (x₃ ++ x₂ ++ x₁ ++ x₀ : Word).extractLsb' k 8 = x := by
    intro k x h
    apply BitVec.eq_of_getLsbD_eq
    intro i hi
    simp [h i hi, hi]
  rw [ItemData.bytes, hbyte 0 x₀, hbyte 8 x₁, hbyte 16 x₂, hbyte 24 x₃]
  all_goals
    intro i hi
    simp only [BitVec.getLsbD_append]
    grind

theorem fetchData_bytes (data : ItemData) (rest : List Byte) :
    fetchData data.size (data.bytes ++ rest) = some (data, rest) := by
  cases data with
  | none => rfl
  | u8 x => rfl
  | u16 x =>
      show some (ItemData.u16 (x.extractLsb' 8 8 ++ x.extractLsb' 0 8), rest) = _
      rw [append_extract]
  | u32 x =>
      show some (ItemData.u32 (x.extractLsb' 24 8 ++ x.extractLsb' 16 8 ++ x.extractLsb' 8 8 ++
        x.extractLsb' 0 8), rest) = _
      rw [append_extract_word]

theorem bytes_fetchData {size : BitVec 2} {start rest : List Byte} {data : ItemData}
    (h : fetchData size start = some (data, rest)) :
    size = data.size ∧ start = data.bytes ++ rest := by
  unfold fetchData at h
  split at h <;> cases h
  · exact ⟨rfl, rfl⟩
  · exact ⟨rfl, rfl⟩
  · rename_i x₀ x₁
    obtain ⟨hlow, hhigh⟩ := extract_append x₁ x₀
    exact ⟨rfl, by rw [ItemData.bytes, hlow, hhigh]; rfl⟩
  · exact ⟨rfl, by rw [extract_append_word]; rfl⟩

theorem fetchShort_bytes {item : ShortItem} (h : item.tag ≠ hidItemTagLong) (rest : List Byte) :
    fetchShort (item.bytes ++ rest) = some (item, rest) := by
  obtain ⟨htag, htype, hsize⟩ := head_fields item.tag item.type item.data.size
  have hfetch : fetchItem (item.bytes ++ rest) = some (.short item, rest) := by
    rw [ShortItem.bytes, List.cons_append, fetchItem, ShortItem.head, if_neg (htag.symm ▸ h),
      hsize, fetchData_bytes, htag, htype]
    rfl
  rw [fetchShort, hfetch]

theorem bytes_fetchShort {start rest : List Byte} {item : ShortItem}
    (h : fetchShort start = some (item, rest)) :
    item.tag ≠ hidItemTagLong ∧ start = item.bytes ++ rest := by
  cases start with
  | nil => cases h
  | cons b start =>
      rw [fetchShort, fetchItem] at h
      split at h
      · rename_i hitem
        split at hitem
        · unfold fetchLong at hitem
          split at hitem
          · split at hitem <;> cases hitem
          · cases hitem
        · rename_i hshort
          obtain ⟨⟨data, rest'⟩, hdata, heq⟩ := Option.map_eq_some_iff.mp hitem
          cases heq
          cases h
          obtain ⟨hsize, hstart⟩ := bytes_fetchData hdata
          refine ⟨hshort, ?_⟩
          rw [ShortItem.bytes, ShortItem.head, ← hsize, head_of_fields, hstart]
          rfl
      · cases h

/-- The short items of a report descriptor. -/
def shortItems : Framing Byte ShortItem where
  fetch := fetchShort
  encode := ShortItem.bytes
  ok item := item.tag ≠ hidItemTagLong
  fetch_encode _ rest h := fetchShort_bytes h rest
  encode_fetch _ _ _ h := bytes_fetchShort h
  encode_pos _ := Nat.succ_pos _

/-! ## The value of an item -/

/-- `item_udata` -/
def itemUdata : ItemData → Word
  | .none => 0
  | .u8 x => x.setWidth 32
  | .u16 x => x.setWidth 32
  | .u32 x => x

/-- `item_sdata` -/
def itemSdata : ItemData → Word
  | .none => 0
  | .u8 x => x.signExtend 32
  | .u16 x => x.signExtend 32
  | .u32 x => x

end LinuxDrivers.Hid
