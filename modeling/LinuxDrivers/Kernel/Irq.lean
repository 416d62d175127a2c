/-
# `LinuxDrivers.Kernel.Irq` — the table of used interrupts

`irq.c` keeps a descriptor for every interrupt in use, on the list `used_irqs`.  The
first request for an interrupt makes the descriptor and attaches it at the DDE kit;
later ones, if all are shared, add their handlers to it:

    request_irq:  no handler                         -EINVAL
                  no memory for the irqaction        -ENOMEM
    claim_irq:    look for the descriptor; if there is none:
                    no memory for it                 -ENOMEM
                    link it;  attach fails           free it, -EBUSY
                  not shared on both sides, and used  -EBUSY
                  count it and add the handler        the new count

The descriptor is linked before it is attached.  If that fails it is freed and stays
linked.

**Proved here.**

    the table is consistent and failed requests leave it alone iff no attach fails
                                                          (`irq_table_iff`)
-/
import LinuxDrivers.Basic
import LinuxDrivers.Lib.History
import LinuxDrivers.Lib.Keyed

namespace LinuxDrivers.Kernel.Irq

open LinuxDrivers.Lib

/-! ## The code -/

def einval : Int := 22

def enomem : Int := 12

def ebusy : Int := 16

/-- `SA_SHIRQ` -/
def saShirq : Word := 0x80

structure Irqaction where
  handler : Word
  flags : Word
  name : Word
  devId : Word
  irq : Word
  deriving DecidableEq, Repr

/-- `action->flags & SA_SHIRQ` -/
def Irqaction.shared (a : Irqaction) : Bool := a.flags &&& saShirq != 0

/-- `struct dde_linux26_irq`, with its address.  The actions hang on the descriptor, the
last one added first. -/
structure DdeLinux26Irq where
  addr : Word
  irq : Word
  /-- Every request that counts has an `irqaction` in memory of its own, so the `unsigned`
  count stays far from its end. -/
  count : Nat
  shared : Bool
  action : List Irqaction
  /-- the memory was given back -/
  freed : Bool
  deriving DecidableEq, Repr

structure State where
  /-- the list, from its head -/
  usedIrqs : List DdeLinux26Irq
  /-- what was attached at the DDE kit: the interrupt, and the descriptor its handler
  is called with -/
  attached : List (Word × Word)
  deriving DecidableEq, Repr

/-- The arguments of `request_irq`, and what it finds outside: whether there is memory
for the `irqaction`, the address of a new descriptor, and the answer of the kit. -/
structure Request where
  irq : Word
  handler : Word
  flags : Word
  devName : Word
  devId : Word
  actionMem : Bool
  irqMem : Option Word
  attach : Int
  deriving DecidableEq, Repr

/-- The last part of `claim_irq`, for the descriptor `d`. -/
def addHandler (s : State) (d : DdeLinux26Irq) (action : Irqaction) : Int × State :=
  if (!d.shared || !action.shared) && !d.action.isEmpty then (-ebusy, s)
  else
    (d.count + 1, { s with
      usedIrqs := updateKey (·.addr) d.addr
        (fun d => { d with count := d.count + 1, action := action :: d.action }) s.usedIrqs })

def claimIrq (s : State) (r : Request) (action : Irqaction) : Int × State :=
  match s.usedIrqs.find? (·.irq == action.irq) with
  | some d => addHandler s d action
  | none =>
      match r.irqMem with
      | none => (-enomem, s)
      | some addr =>
          let d : DdeLinux26Irq := ⟨addr, action.irq, 0, action.shared, [], false⟩
          if r.attach ≠ 0 then
            -- `dde_kit_simple_free(irq)`, with `irq` at the head of the list
            (-ebusy, { s with usedIrqs := { d with freed := true } :: s.usedIrqs })
          else
            addHandler
              { usedIrqs := d :: s.usedIrqs, attached := (action.irq, addr) :: s.attached }
              d action

def Request.action (r : Request) : Irqaction := ⟨r.handler, r.flags, r.devName, r.devId, r.irq⟩

def requestIrq (s : State) (r : Request) : Int × State :=
  if r.handler = 0 then (-einval, s)
  else if !r.actionMem then (-enomem, s)
  else
    let (err, s) := claimIrq s r r.action
    if err < 0 then (err, s) else (0, s)

/-- The calls `irq_handler` makes: the handler, the interrupt and the cookie. -/
def irqHandler (d : DdeLinux26Irq) : List (Word × Word × Word) :=
  d.action.map (fun a => (a.handler, a.irq, a.devId))

/-- The interrupt fires: the kit calls `irq_handler` for whatever is attached to it. -/
def interrupt (s : State) (irq : Word) : List (Word × Word × Word) :=
  (s.attached.filter (·.1 == irq)).flatMap (fun x =>
    match s.usedIrqs.find? (·.addr == x.2) with
    | some d => irqHandler d
    | none => [])

/-! ## What the table is for -/

structure Consistent (s : State) : Prop where
  /-- at most one descriptor per interrupt -/
  once : (s.usedIrqs.map (·.irq)).Nodup
  /-- every descriptor is there and attached -/
  attached : ∀ d ∈ s.usedIrqs, d.freed = false ∧ (d.irq, d.addr) ∈ s.attached
  count : ∀ d ∈ s.usedIrqs, d.count = d.action.length
  /-- several actions are all shared -/
  shared : ∀ d ∈ s.usedIrqs, 1 < d.action.length → ∀ a ∈ d.action, a.shared = true

/-- One request: the table is consistent afterwards, an error leaves everything as it
was, and after an answer of 0 the interrupt calls the handler, besides all that were called
before. -/
structure Right (s : State) (r : Request) : Prop where
  consistent : Consistent (requestIrq s r).2
  failed : (requestIrq s r).1 ≠ 0 → (requestIrq s r).2 = s
  served : (requestIrq s r).1 = 0 → (r.handler, r.irq, r.devId) ∈ interrupt (requestIrq s r).2 r.irq
  kept : ∀ irq, ∀ call ∈ interrupt s irq, call ∈ interrupt (requestIrq s r).2 irq

def step (s : State) (r : Request) : State := (requestIrq s r).2

def empty : State := ⟨[], []⟩

/-- Memory for a new descriptor is not in use; it may be memory that was given back. -/
def legal (s : State) (r : Request) : Bool :=
  match r.irqMem with
  | some addr => s.usedIrqs.all (fun d => d.freed || d.addr != addr)
  | none => true

/-- The condition: a request that gets as far as to attach its interrupt succeeds with
that. -/
def attachSucceeds (s : State) (r : Request) : Bool :=
  r.handler == 0 || !r.actionMem || s.usedIrqs.any (·.irq == r.irq) || r.irqMem.isNone ||
    r.attach == 0

/-! ## The invariant -/

/-- Addresses tell descriptors apart, and the flag of a descriptor speaks for its
actions. -/
structure Kept (s : State) : Prop where
  consistent : Consistent s
  addrs : (s.usedIrqs.map (·.addr)).Nodup
  sharing : ∀ d ∈ s.usedIrqs, if d.shared then ∀ a ∈ d.action, a.shared = true
    else d.action.length ≤ 1

theorem Kept.empty : Kept empty where
  consistent := ⟨List.nodup_nil, nofun, nofun, nofun⟩
  addrs := List.nodup_nil
  sharing := nofun

section
variable {s : State} {d : DdeLinux26Irq} {action : Irqaction} {irq : Word}
  {call : Word × Word × Word}

theorem mem_interrupt (hs : Kept s) : call ∈ interrupt s irq ↔
    ∃ d ∈ s.usedIrqs, (irq, d.addr) ∈ s.attached ∧ call ∈ irqHandler d := by
  rw [interrupt, List.mem_flatMap]
  constructor
  · rintro ⟨⟨irq', addr⟩, hmem, hcall⟩
    obtain ⟨hatt, hirq⟩ := List.mem_filter.mp hmem
    obtain rfl : irq' = irq := by simpa using hirq
    split at hcall
    · rename_i d hfind
      obtain ⟨hd, haddr⟩ := find?_key hfind
      exact ⟨d, hd, haddr ▸ hatt, hcall⟩
    · cases hcall
  · rintro ⟨d, hd, hatt, hcall⟩
    refine ⟨(irq, d.addr), List.mem_filter.mpr ⟨hatt, by simp⟩, ?_⟩
    simp only [find?_of_mem hs.addrs hd]
    exact hcall

/-- The descriptor with one action more. -/
def DdeLinux26Irq.push (d : DdeLinux26Irq) (action : Irqaction) : DdeLinux26Irq :=
  { d with count := d.count + 1, action := action :: d.action }

/-- The state after the handler was added to `d`. -/
def State.push (s : State) (d : DdeLinux26Irq) (action : Irqaction) : State :=
  { s with usedIrqs := updateKey (·.addr) d.addr (·.push action) s.usedIrqs }

theorem addHandler_eq (s : State) (d : DdeLinux26Irq) (action : Irqaction) :
    addHandler s d action =
      if (!d.shared || !action.shared) && !d.action.isEmpty then (-ebusy, s)
      else (d.count + 1, s.push d action) := rfl

/-- A descriptor after the handler was added: `d` with the new action, or another one. -/
theorem mem_push (hs : Kept s) (hd : d ∈ s.usedIrqs) {d' : DdeLinux26Irq}
    (hd' : d' ∈ (s.push d action).usedIrqs) : d' = d.push action ∨ d' ∈ s.usedIrqs := by
  rcases mem_updateKey hd' with ⟨d₀, hd₀, haddr, rfl⟩ | ⟨hmem, -⟩
  · have heq : d₀ = d := List.inj_on_of_nodup_map hs.addrs hd₀ hd haddr
    exact .inl (by rw [heq])
  · exact .inr hmem

theorem map_push {β : Type} {g : DdeLinux26Irq → β} (hg : ∀ d, g (d.push action) = g d) :
    (s.push d action).usedIrqs.map g = s.usedIrqs.map g :=
  map_updateKey hg _

theorem push_mem (hd : d ∈ s.usedIrqs) : d.push action ∈ (s.push d action).usedIrqs := by
  have hmem := mem_updateKey_of_mem DdeLinux26Irq.addr d.addr
    (fun d => d.push action) hd
  rwa [if_pos rfl] at hmem

/-- A handler that may be added keeps the table in order. -/
theorem Kept.push (hs : Kept s) (hd : d ∈ s.usedIrqs)
    (hfits : d.action = [] ∧ d.shared = action.shared ∨ d.shared = true ∧ action.shared = true) :
    Kept (s.push d action) := by
  have hsharing : if d.shared then ∀ a ∈ action :: d.action, a.shared = true
      else (action :: d.action).length ≤ 1 := by
    rcases hfits with ⟨hnil, heq⟩ | ⟨hshared, hact⟩
    · rw [hnil, heq]
      split
      · rename_i hact
        intro a ha
        rw [List.mem_singleton.mp ha]
        exact hact
      · exact Nat.le_refl _
    · have hold := hs.sharing d hd
      rw [if_pos hshared] at hold ⊢
      intro a ha
      rcases List.mem_cons.mp ha with rfl | ha
      · exact hact
      · exact hold a ha
  refine ⟨⟨?_, ?_, ?_, ?_⟩, ?_, ?_⟩
  · rw [map_push (fun _ => rfl)]
    exact hs.consistent.once
  · intro d' hd'
    rcases mem_push hs hd hd' with rfl | hmem
    · exact hs.consistent.attached d hd
    · exact hs.consistent.attached d' hmem
  · intro d' hd'
    rcases mem_push hs hd hd' with rfl | hmem
    · show d.count + 1 = d.action.length + 1
      rw [hs.consistent.count d hd]
    · exact hs.consistent.count d' hmem
  · intro d' hd' hlen
    rcases mem_push hs hd hd' with rfl | hmem
    · intro a ha
      cases hflag : d.shared with
      | true =>
          rw [if_pos hflag] at hsharing
          exact hsharing a ha
      | false =>
          rw [hflag, if_neg Bool.false_ne_true] at hsharing
          exact absurd hlen (Nat.not_lt.mpr hsharing)
    · exact hs.consistent.shared d' hmem hlen
  · rw [map_push (fun _ => rfl)]
    exact hs.addrs
  · intro d' hd'
    rcases mem_push hs hd hd' with rfl | hmem
    · exact hsharing
    · exact hs.sharing d' hmem

/-- The new handler is called, ... -/
theorem push_served (hs : Kept (s.push d action)) (hd : d ∈ s.usedIrqs)
    (hatt : (irq, d.addr) ∈ s.attached) :
    (action.handler, action.irq, action.devId) ∈ interrupt (s.push d action) irq :=
  (mem_interrupt hs).mpr ⟨_, push_mem hd, hatt, List.mem_cons_self⟩

/-- ... and so are the old ones. -/
theorem push_kept (hs : Kept s) (hs' : Kept (s.push d action)) (hcall : call ∈ interrupt s irq) :
    call ∈ interrupt (s.push d action) irq := by
  obtain ⟨d₀, hd₀, hatt, hmem⟩ := (mem_interrupt hs).mp hcall
  have hpushed := mem_updateKey_of_mem DdeLinux26Irq.addr d.addr
    (fun d => d.push action) hd₀
  refine (mem_interrupt hs').mpr ⟨_, hpushed, ?_, ?_⟩
  · split <;> exact hatt
  · split
    · exact List.mem_cons_of_mem _ hmem
    · exact hmem

/-- A new descriptor, attached and still without actions. -/
def State.attach (s : State) (addr irq : Word) (shared : Bool) : State :=
  { usedIrqs := ⟨addr, irq, 0, shared, [], false⟩ :: s.usedIrqs
    attached := (irq, addr) :: s.attached }

theorem Kept.attach (hs : Kept s) {addr : Word} (shared : Bool)
    (hnew : ∀ d ∈ s.usedIrqs, d.irq ≠ irq) (haddr : ∀ d ∈ s.usedIrqs, d.addr ≠ addr) :
    Kept (s.attach addr irq shared) := by
  have hcons : ∀ {β : Type} (g : DdeLinux26Irq → β) (b : β), (s.usedIrqs.map g).Nodup →
      (∀ d ∈ s.usedIrqs, g d ≠ b) → (b :: s.usedIrqs.map g).Nodup := by
    intro β g b hnodup hne
    refine List.nodup_cons.mpr ⟨?_, hnodup⟩
    intro hmem
    obtain ⟨d, hd, heq⟩ := List.mem_map.mp hmem
    exact hne d hd heq
  refine ⟨⟨hcons _ _ hs.consistent.once hnew, ?_, ?_, ?_⟩, hcons _ _ hs.addrs haddr, ?_⟩
  · intro d hd
    rcases List.mem_cons.mp hd with rfl | hd
    · exact ⟨rfl, List.mem_cons_self⟩
    · exact ⟨(hs.consistent.attached d hd).1,
        List.mem_cons_of_mem _ (hs.consistent.attached d hd).2⟩
  · intro d hd
    rcases List.mem_cons.mp hd with rfl | hd
    · rfl
    · exact hs.consistent.count d hd
  · intro d hd hlen
    rcases List.mem_cons.mp hd with rfl | hd
    · exact absurd hlen (Nat.not_lt_zero _)
    · exact hs.consistent.shared d hd hlen
  · intro d hd
    rcases List.mem_cons.mp hd with rfl | hd
    · split
      · intro a ha
        cases ha
      · exact Nat.zero_le _
    · exact hs.sharing d hd

theorem attach_kept (hs : Kept s) {addr irq' : Word} {shared : Bool}
    (hs' : Kept (s.attach addr irq' shared)) (hcall : call ∈ interrupt s irq) :
    call ∈ interrupt (s.attach addr irq' shared) irq := by
  obtain ⟨d, hd, hatt, hmem⟩ := (mem_interrupt hs).mp hcall
  exact (mem_interrupt hs').mpr
    ⟨d, List.mem_cons_of_mem _ hd, List.mem_cons_of_mem _ hatt, hmem⟩

/-! ## A request -/

/-- Between requests every descriptor has an action. -/
structure Table (s : State) : Prop extends Kept s where
  used : ∀ d ∈ s.usedIrqs, d.action ≠ []

/-- What a request owes, as a property of its answer and the state after it. -/
structure Served (s : State) (r : Request) (x : Int × State) : Prop where
  table : Table x.2
  failed : x.1 ≠ 0 → x.2 = s
  served : x.1 = 0 → (r.handler, r.irq, r.devId) ∈ interrupt x.2 r.irq
  kept : ∀ irq, ∀ call ∈ interrupt s irq, call ∈ interrupt x.2 irq

section
variable {r : Request}

theorem Served.right (h : Served s r (requestIrq s r)) : Right s r :=
  ⟨h.table.consistent, h.failed, h.served, h.kept⟩

theorem Served.unchanged (hs : Table s) {err : Int} (herr : err ≠ 0) : Served s r (err, s) where
  table := hs
  failed := fun _ => rfl
  served := fun hzero => absurd hzero herr
  kept := fun _ _ hcall => hcall

/-- The handler is added to `d`, which is in `s` or was attached just now. -/
theorem Served.push {s₁ : State} (hs₁ : Kept s₁) (hd : d ∈ s₁.usedIrqs) (hirq : d.irq = r.irq)
    (hothers : ∀ d' ∈ s₁.usedIrqs, d' ≠ d → d'.action ≠ [])
    (hkept : ∀ irq, ∀ call ∈ interrupt s irq, call ∈ interrupt s₁ irq)
    (hfits : d.action = [] ∧ d.shared = r.action.shared ∨
      d.shared = true ∧ r.action.shared = true) :
    Served s r (0, s₁.push d r.action) := by
  have hpush := hs₁.push hd hfits
  refine ⟨⟨hpush, ?_⟩, fun hne => absurd rfl hne, ?_, ?_⟩
  · intro d' hd'
    rcases mem_updateKey hd' with ⟨d₀, hd₀, haddr, rfl⟩ | ⟨hmem, hne⟩
    · exact List.cons_ne_nil _ _
    · exact hothers d' hmem (fun heq => hne (congrArg _ heq))
  · intro _
    exact push_served hpush hd (hirq ▸ (hs₁.consistent.attached d hd).2)
  · intro irq call hcall
    exact push_kept hs₁ hpush (hkept irq call hcall)

/-- `claim_irq`, when the descriptor is there or can be attached. -/
theorem claimIrq_served (hs : Table s) (hl : legal s r = true)
    (hok : (s.usedIrqs.any (·.irq == r.irq) || r.irqMem.isNone || r.attach == 0) = true) :
    Served s r (if (claimIrq s r r.action).1 < 0 then claimIrq s r r.action
      else (0, (claimIrq s r r.action).2)) := by
  unfold claimIrq
  cases hfind : s.usedIrqs.find? (·.irq == r.action.irq) with
  | some d =>
      obtain ⟨hd, hirq⟩ := find?_key hfind
      show Served s r (if (addHandler s d r.action).1 < 0 then addHandler s d r.action
        else (0, (addHandler s d r.action).2))
      rw [addHandler_eq]
      by_cases hrefuse : ((!d.shared || !r.action.shared) && !d.action.isEmpty) = true
      · have hneg : -ebusy < 0 := by decide
        rw [if_pos hrefuse, if_pos hneg]
        exact .unchanged hs (show -ebusy ≠ 0 by decide)
      · rw [if_neg hrefuse]
        have hcount : ¬ (d.count : Int) + 1 < 0 := by omega
        rw [if_neg hcount]
        refine .push hs.toKept hd hirq (fun d' hd' _ => hs.used d' hd') (fun _ _ hcall => hcall) ?_
        have hused := hs.used d hd
        simpa [hused] using hrefuse
  | none =>
      have hnew : ∀ d ∈ s.usedIrqs, d.irq ≠ r.irq := find?_key_none.mp hfind
      cases hmem : r.irqMem with
      | none => exact .unchanged hs (by decide)
      | some addr =>
          have hattach : r.attach = 0 := by
            have hnone : s.usedIrqs.any (·.irq == r.irq) = false := by
              rw [List.any_eq_false]
              intro d hd
              simpa using hnew d hd
            rw [hnone, hmem] at hok
            simpa using hok
          have haddr : ∀ d ∈ s.usedIrqs, d.addr ≠ addr := by
            rw [legal, hmem] at hl
            intro d hd
            have hlive := (hs.consistent.attached d hd).1
            simpa [hlive] using List.all_eq_true.mp hl d hd
          have hkept := hs.toKept.attach r.action.shared hnew haddr
          have hone : ¬ ((0 : Nat) : Int) + 1 < 0 := by decide
          simp only [hattach, ne_eq, not_true_eq_false, if_false, addHandler_eq, List.isEmpty_nil,
            Bool.not_true, Bool.and_false, Bool.false_eq_true, if_neg hone]
          refine .push hkept List.mem_cons_self rfl ?_ ?_ (.inl ⟨rfl, rfl⟩)
          · intro d' hd' hne
            rcases List.mem_cons.mp hd' with rfl | hd'
            · exact absurd rfl hne
            · exact hs.used d' hd'
          · intro irq call hcall
            exact attach_kept hs.toKept hkept hcall

theorem requestIrq_served (hs : Table s) (hl : legal s r = true)
    (hok : attachSucceeds s r = true) : Served s r (requestIrq s r) := by
  unfold requestIrq
  by_cases hnull : r.handler = 0
  · rw [if_pos hnull]
    exact .unchanged hs (by decide)
  · rw [if_neg hnull]
    cases hmem : r.actionMem with
    | false => exact .unchanged hs (by decide)
    | true =>
        refine claimIrq_served hs hl ?_
        simpa only [attachSucceeds, hmem, beq_eq_false_iff_ne.mpr hnull, Bool.not_true,
          Bool.false_or, Bool.or_false] using hok

/-- An attach that fails: an error, and the freed descriptor on the list. -/
theorem requestIrq_attach_fails (hok : ¬ attachSucceeds s r = true) :
    ∃ d, requestIrq s r = (-ebusy, { s with usedIrqs := d :: s.usedIrqs }) := by
  simp only [attachSucceeds, Bool.or_eq_true, not_or, beq_iff_eq, Bool.not_eq_true,
    Bool.not_eq_false', List.any_eq_false, Option.isNone_eq_false_iff] at hok
  obtain ⟨⟨⟨⟨hnull, hmem⟩, hnone⟩, hirq⟩, hattach⟩ := hok
  obtain ⟨addr, haddr⟩ := Option.isSome_iff_exists.mp hirq
  have hfind : s.usedIrqs.find? (·.irq == r.action.irq) = none := by
    refine find?_key_none.mpr fun d hd => ?_
    show d.irq ≠ r.irq
    simpa using hnone d hd
  refine ⟨⟨addr, r.irq, 0, r.action.shared, [], true⟩, ?_⟩
  rw [requestIrq, if_neg hnull, hmem, claimIrq, hfind, haddr]
  simp only [Bool.not_true, Bool.false_eq_true, if_false, ne_eq, hattach, not_false_eq_true, if_true]
  rfl

theorem right_iff (hs : Table s) (hl : legal s r = true) :
    Right s r ↔ attachSucceeds s r = true := by
  constructor
  · intro hright
    by_contra hok
    obtain ⟨d, hr⟩ := requestIrq_attach_fails hok
    have hsame := hright.failed (by rw [hr]; exact show -ebusy ≠ 0 by decide)
    rw [hr] at hsame
    have hlist : d :: s.usedIrqs = s.usedIrqs := congrArg State.usedIrqs hsame
    exact List.cons_ne_self d s.usedIrqs hlist
  · intro hok
    exact (requestIrq_served hs hl hok).right

end

end

/-! ## Histories of requests -/

/-- **When the table is consistent.**  Along every history of requests, from the empty
table on, and whatever memory there is: the table stays consistent, requests that fail
leave it alone and those that succeed are served, if and only if no attach fails. -/
theorem irq_table_iff (requests : List Request)
    (hlegal : Along step (legal · ·) empty requests) :
    Along step Right empty requests ↔ Along step (attachSucceeds · ·) empty requests := by
  refine Along.iff_of_invariant (I := Table) ?_ ?_ requests _ ⟨Kept.empty, nofun⟩ hlegal
  · intro s r hs hl
    exact right_iff hs hl
  · intro s r hs hl hok
    exact (requestIrq_served hs hl hok).table

/-- Two devices share interrupt 5, a third one that would not share is refused. -/
theorem irq_table_shared :
    Along step Right empty
      [⟨5, 0x400, 0x80, 0, 1, true, some 0x1000, 0⟩, ⟨5, 0x500, 0x80, 0, 2, true, some 0x2000, 0⟩,
        ⟨5, 0x600, 0, 0, 3, true, some 0x2000, 0⟩] :=
  (irq_table_iff _ (by decide)).mpr (by decide)

/-- **A freed descriptor stays linked.**  One request whose attach fails: it answers
`-EBUSY`, and the table has a descriptor more. -/
theorem attach_failure_leaves_descriptor :
    Along step (legal · ·) empty [⟨5, 0x400, 0, 0, 1, true, some 0x1000, -1⟩] ∧
      ¬ Along step Right empty [⟨5, 0x400, 0, 0, 1, true, some 0x1000, -1⟩] := by
  refine ⟨by decide, ?_⟩
  rintro ⟨hright, -⟩
  have hsame := hright.failed (by decide)
  revert hsame
  decide

end LinuxDrivers.Kernel.Irq
