/-
# `LinuxDrivers.Kernel.PageCache` — from addresses back to pages

`page_alloc.c` keeps the pages it allocated in 1024 chained buckets, so that
`dde_linux26_page_lookup` finds the page of a virtual address:

    add     (`__alloc_pages`)   puts the page at the head of its bucket
    remove  (`__free_pages`)    looks for the page in its bucket and unlinks it
    lookup                      walks the bucket

The loop of `remove` ends with a `break` that is indented under its `if` and not
part of it: only the head of the bucket is looked at.

**Proved here.**

    the cache is an exact index along a history iff every page that is freed is the
    youngest of its bucket                              (`page_cache_exact_iff`)
-/
import LinuxDrivers.Basic
import LinuxDrivers.Lib.History
import LinuxDrivers.Lib.Keyed

namespace LinuxDrivers.Kernel.PageCache

open LinuxDrivers.Lib

/-! ## The code -/

def pageShift : Nat := 12

def pageMask : Word := 0xfffff000

/-- `DDE_PAGE_CACHE_MASK` -/
def ddePageCacheMask : Word := 0x3ff

def virtToPagehash (a : Word) : Word := a >>> pageShift &&& ddePageCacheMask

/-- A `struct page`, known by its own address. -/
structure Page where
  addr : Word
  virtual : Word
  deriving DecidableEq, Repr

/-- The buckets of `dde_linux26_page_cache`, each from its head. -/
abbrev Cache := Word → List Page

def Cache.set (c : Cache) (h : Word) (bucket : List Page) : Cache := Function.update c h bucket

def ddeLinux26PageCacheAdd (c : Cache) (p : Page) : Cache :=
  let hashval := virtToPagehash p.virtual
  c.set hashval (p :: c hashval)

def ddeLinux26PageCacheRemove (c : Cache) (p : Page) : Cache :=
  let hashval := virtToPagehash p.virtual
  match c hashval with
  | [] => c
  | e :: rest =>
      -- `break` stands outside the `if`
      if e.virtual = p.virtual &&& pageMask then c.set hashval rest else c

def ddeLinux26PageLookup (c : Cache) (va : Word) : Option Page :=
  (c (virtToPagehash va)).find? (·.virtual == va &&& pageMask)

/-! ## Histories of allocations -/

inductive Call where
  /-- `__alloc_pages`, with the page it makes -/
  | allocPages (p : Page)
  /-- `__free_pages` -/
  | freePages (p : Page)
  deriving DecidableEq, Repr

structure State where
  cache : Cache
  /-- the pages that are allocated, the youngest first -/
  live : List Page

def step (s : State) : Call → State
  | .allocPages p => ⟨ddeLinux26PageCacheAdd s.cache p, p :: s.live⟩
  | .freePages p => ⟨ddeLinux26PageCacheRemove s.cache p, s.live.filter (· ≠ p)⟩

/-- After `dde_linux26_page_cache_init`. -/
def empty : State := ⟨fun _ => [], []⟩

/-- The allocator returns an aligned address no other page has, and only pages that are
allocated are freed. -/
def legal (s : State) : Call → Bool
  | .allocPages p => p.virtual &&& pageMask == p.virtual && s.live.all (·.virtual != p.virtual)
  | .freePages p => s.live.contains p

/-- The lookup finds the pages that are allocated, and nothing else. -/
def Exact (s : State) : Prop :=
  ∀ va p, ddeLinux26PageLookup s.cache va = some p ↔ p ∈ s.live ∧ p.virtual = va &&& pageMask

/-- The pages of one bucket that are allocated. -/
def State.bucket (s : State) (h : Word) : List Page :=
  s.live.filter (virtToPagehash ·.virtual == h)

/-- The condition: a page is freed only if none of its bucket that is still allocated is
younger. -/
def freesYoungest (s : State) : Call → Bool
  | .allocPages _ => true
  | .freePages p => (s.bucket (virtToPagehash p.virtual)).head? == some p

/-! ## The invariant -/

/-- The buckets hold the pages that are allocated, in the order of their age. -/
structure Indexed (s : State) : Prop where
  cache : ∀ h, s.cache h = s.bucket h
  virtuals : (s.live.map (·.virtual)).Nodup
  aligned : ∀ p ∈ s.live, p.virtual &&& pageMask = p.virtual

theorem Indexed.empty : Indexed empty where
  cache := fun _ => rfl
  virtuals := List.nodup_nil
  aligned := nofun

/-- An address is in the bucket of its page. -/
theorem virtToPagehash_mask (va : Word) : virtToPagehash (va &&& pageMask) = virtToPagehash va := by
  show (va &&& pageMask) >>> 12 &&& ddePageCacheMask = va >>> 12 &&& ddePageCacheMask
  rw [BitVec.ushiftRight_and_distrib, BitVec.and_assoc]
  rfl

section
variable {s : State} {p : Page}

theorem mem_bucket {h : Word} : p ∈ s.bucket h ↔ p ∈ s.live ∧ virtToPagehash p.virtual = h := by
  simp [State.bucket]

/-- The pages of a bucket differ in their addresses. -/
theorem Indexed.bucket_nodup (hs : Indexed s) (h : Word) :
    ((s.bucket h).map (·.virtual)).Nodup :=
  hs.virtuals.sublist (List.filter_sublist.map _)

theorem Indexed.exact (hs : Indexed s) : Exact s := by
  intro va p
  rw [ddeLinux26PageLookup, hs.cache]
  constructor
  · intro hfind
    obtain ⟨hmem, hva⟩ := find?_key hfind
    exact ⟨(mem_bucket.mp hmem).1, hva⟩
  · rintro ⟨hlive, hva⟩
    have hmem : p ∈ s.bucket (virtToPagehash va) := by
      rw [mem_bucket, hva, virtToPagehash_mask]
      exact ⟨hlive, rfl⟩
    rw [← hva]
    exact find?_of_mem (hs.bucket_nodup _) hmem

theorem Indexed.alloc (hs : Indexed s) (hl : legal s (.allocPages p) = true) :
    Indexed (step s (.allocPages p)) := by
  simp only [legal, Bool.and_eq_true, beq_iff_eq, List.all_eq_true, bne_iff_ne] at hl
  obtain ⟨halign, hnew⟩ := hl
  refine ⟨?_, ?_, ?_⟩
  · intro h
    show Function.update s.cache _ (p :: s.cache (virtToPagehash p.virtual)) h =
      (p :: s.live).filter (virtToPagehash ·.virtual == h)
    by_cases hh : virtToPagehash p.virtual = h
    · subst hh
      rw [Function.update_self, List.filter_cons_of_pos (by simp), hs.cache, State.bucket]
    · rw [Function.update_of_ne (Ne.symm hh), List.filter_cons_of_neg (by simpa using hh), hs.cache,
        State.bucket]
  · refine List.nodup_cons.mpr ⟨?_, hs.virtuals⟩
    intro hmem
    obtain ⟨q, hq, hvirtual⟩ := List.mem_map.mp hmem
    exact hnew q hq hvirtual
  · intro q hq
    rcases List.mem_cons.mp hq with rfl | hq
    · exact halign
    · exact hs.aligned q hq

/-- What `remove` does to the bucket: it drops the head, if that is the page. -/
theorem remove_eq (hs : Indexed s) (hp : p ∈ s.live) :
    ddeLinux26PageCacheRemove s.cache p =
      if (s.bucket (virtToPagehash p.virtual)).head? = some p then
        s.cache.set (virtToPagehash p.virtual) (s.bucket (virtToPagehash p.virtual)).tail
      else s.cache := by
  rw [ddeLinux26PageCacheRemove]
  simp only [hs.cache, hs.aligned p hp]
  cases hb : s.bucket (virtToPagehash p.virtual) with
  | nil => rfl
  | cons e rest =>
      have he : e ∈ s.live := (mem_bucket.mp (hb ▸ List.mem_cons_self)).1
      have hsame : e.virtual = p.virtual ↔ e = p :=
        ⟨List.inj_on_of_nodup_map hs.virtuals he hp, congrArg _⟩
      simp only [hsame, List.head?_cons, Option.some.injEq, List.tail_cons]

theorem Indexed.free (hs : Indexed s) (hp : p ∈ s.live)
    (hhead : (s.bucket (virtToPagehash p.virtual)).head? = some p) :
    Indexed (step s (.freePages p)) := by
  refine ⟨?_, hs.virtuals.sublist (List.filter_sublist.map _), ?_⟩
  · intro h
    show ddeLinux26PageCacheRemove s.cache p h =
      (s.live.filter (· ≠ p)).filter (virtToPagehash ·.virtual == h)
    rw [remove_eq hs hp, if_pos hhead, List.filter_comm]
    show Function.update s.cache _ _ h = (s.bucket h).filter (· ≠ p)
    by_cases hh : h = virtToPagehash p.virtual
    · subst hh
      obtain ⟨rest, hb⟩ := List.head?_eq_some_iff.mp hhead
      have hrest : p ∉ rest := by
        have hnodup := List.Nodup.of_map _ (hs.bucket_nodup (virtToPagehash p.virtual))
        rw [hb] at hnodup
        exact (List.nodup_cons.mp hnodup).1
      rw [Function.update_self, hb, List.tail_cons, List.filter_cons_of_neg (by simp)]
      refine (List.filter_eq_self.mpr ?_).symm
      intro q hq
      simpa using fun heq : q = p => hrest (heq ▸ hq)
    · -- another bucket does not have the page
      rw [Function.update_of_ne hh, hs.cache]
      refine (List.filter_eq_self.mpr ?_).symm
      intro q hq
      simpa using fun heq : q = p => hh (heq ▸ (mem_bucket.mp hq).2.symm)
  · intro q hq
    exact hs.aligned q (List.mem_filter.mp hq).1

/-- A page that is not the head of its bucket is still found after it was freed. -/
theorem not_exact_of_not_head (hs : Indexed s) (hp : p ∈ s.live)
    (hhead : (s.bucket (virtToPagehash p.virtual)).head? ≠ some p) :
    ¬ Exact (step s (.freePages p)) := by
  intro hexact
  have hcache : (step s (.freePages p)).cache = s.cache := by
    show ddeLinux26PageCacheRemove s.cache p = s.cache
    rw [remove_eq hs hp, if_neg hhead]
  have hfind : ddeLinux26PageLookup (step s (.freePages p)).cache p.virtual = some p := by
    rw [hcache]
    exact (hs.exact p.virtual p).mpr ⟨hp, (hs.aligned p hp).symm⟩
  have hlive := ((hexact p.virtual p).mp hfind).1
  simpa [step] using (List.mem_filter.mp hlive).2

/-- One call leaves an exact index exactly under the condition. -/
theorem exact_step_iff {c : Call} (hs : Indexed s) (hl : legal s c = true) :
    Exact (step s c) ↔ freesYoungest s c = true := by
  cases c with
  | allocPages p => exact iff_of_true (hs.alloc hl).exact rfl
  | freePages p =>
      have hp : p ∈ s.live := by simpa [legal] using hl
      rw [freesYoungest, beq_iff_eq]
      constructor
      · intro hexact
        by_contra hhead
        exact not_exact_of_not_head hs hp hhead hexact
      · intro hhead
        exact (hs.free hp hhead).exact

end

/-! ## The index -/

/-- **When the cache is an exact index.**  Along every history of allocations and frees,
after each call the lookup finds exactly the pages that are allocated, if and only if
every page that is freed is the youngest of its bucket. -/
theorem page_cache_exact_iff (calls : List Call)
    (hlegal : Along step (legal · ·) empty calls) :
    Along step (fun s c => Exact (step s c)) empty calls ↔
      Along step (freesYoungest · ·) empty calls := by
  refine Along.iff_of_invariant (I := Indexed) ?_ ?_ calls _ Indexed.empty hlegal
  · intro s c hs hl
    exact exact_step_iff hs hl
  · intro s c hs hl hok
    cases c with
    | allocPages p => exact hs.alloc hl
    | freePages p => exact hs.free (by simpa [legal] using hl) (by simpa [freesYoungest] using hok)

/-- Two pages of one bucket, freed in the reverse order. -/
theorem page_cache_exact_stack :
    Along step (fun s c => Exact (step s c)) empty
      [.allocPages ⟨1, 0x1000⟩, .allocPages ⟨2, 0x401000⟩, .freePages ⟨2, 0x401000⟩,
        .freePages ⟨1, 0x1000⟩] :=
  (page_cache_exact_iff _ (by decide)).mpr (by decide)

/-- **A freed page is found.**  Two pages of one bucket, of which the older one is
freed. -/
theorem freed_page_found :
    Along step (legal · ·) empty
        [.allocPages ⟨1, 0x1000⟩, .allocPages ⟨2, 0x401000⟩, .freePages ⟨1, 0x1000⟩] ∧
      ¬ Along step (fun s c => Exact (step s c)) empty
        [.allocPages ⟨1, 0x1000⟩, .allocPages ⟨2, 0x401000⟩, .freePages ⟨1, 0x1000⟩] := by
  refine ⟨by decide, ?_⟩
  rintro ⟨-, -, hexact, -⟩
  have hfound := ((hexact 0x1000 ⟨1, 0x1000⟩).mp (by decide)).1
  revert hfound
  decide

end LinuxDrivers.Kernel.PageCache
