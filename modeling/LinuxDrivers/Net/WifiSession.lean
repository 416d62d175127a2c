/-
# `LinuxDrivers.Net.WifiSession` — the session of the wireless driver

The wireless driver has one client at a time.  `Nic::_session` points to its session:

    entrypoint        new session;  _session = it;  _session->start();
                      _session->wait_for_completion();      ...      close: destroy it
    session thread    initialise;  register the callback;  _session->ready();  ...
    receive thread    callback for each packet:  _session->rx_source()  ...

A session that is closed is destroyed together with its thread.  `_session` keeps its
address, and the callback stays registered.

**Proved here.**

    the callback finds a session exactly while one is open, or on its way to be
                                                        (`rx_session_live_iff`)
    the quota check is exact unless the sizes of the buffers wrap around when they are
    added                                               (`quotaSuffices_exact_iff`)
-/
import LinuxDrivers.Basic
import LinuxDrivers.Lib.Machine
import Mathlib.Logic.Function.Basic

namespace LinuxDrivers.Net.WifiSession

open LinuxDrivers.Lib

/-! ## The code -/

/-- Where the entrypoint is: between two requests, in `_create_session`, or with a session
that it has handed out. -/
inductive Entrypoint where
  | idle
  /-- the session is allocated and constructed -/
  | construct
  /-- `_session` is set to it -/
  | assign (s : Nat)
  /-- `_session->start()` -/
  | start
  /-- `_session->wait_for_completion()` -/
  | wait
  | opened (s : Nat)
  deriving DecidableEq, Repr

/-- Where the thread of a session is, in `dde_tx_handler`. -/
inductive TxPoint where
  /-- not started, or destroyed with its session -/
  | off
  /-- `dde_linux26_init`, the initcalls, `dde_linux26_net_init` -/
  | initialise
  /-- `dde_linux26_net_register_rx_callback(dde_rx_handler)` -/
  | register
  /-- the index and the address of the card, the ESSID, eight seconds -/
  | associate
  /-- `_session->ready()` -/
  | ready
  /-- `_session->tx_sink()` -/
  | sink
  | loop
  deriving DecidableEq, Repr

/-- Where the receive thread is. -/
inductive RxPoint where
  | idle
  /-- in `dde_rx_handler`: `_session->rx_source()` -/
  | source
  /-- the packet goes to the client of a session -/
  | submit (s : Nat)
  deriving DecidableEq, Repr

structure State where
  /-- `Nic::_session` -/
  session : Option Nat
  /-- sessions are numbered in the order of their construction -/
  constructed : Nat
  destroyed : Nat → Bool
  /-- the `_startup_lock` of each session -/
  startupLock : Nat → Bool
  ep : Entrypoint
  threads : Nat → TxPoint
  /-- `current_rx_callback` is `dde_rx_handler` -/
  callback : Bool
  rx : RxPoint

def State.init : State where
  session := none
  constructed := 0
  destroyed := fun _ => false
  startupLock := fun _ => false
  ep := .idle
  threads := fun _ => .off
  callback := false
  rx := .idle

/-- The quota check of `_create_session`, in the arithmetic of `size_t`. -/
def quotaSuffices (sessionSize ramQuota txBufSize rxBufSize : Word) : Bool :=
  !(ramQuota < sessionSize) &&
    !(txBufSize > ramQuota - sessionSize || rxBufSize > ramQuota - sessionSize ||
      txBufSize + rxBufSize > ramQuota - sessionSize)

inductive Action where
  /-- a client asks for a session -/
  | «open» (ramQuota txBufSize rxBufSize : Word)
  /-- the client closes its session -/
  | close
  /-- `_create_session` goes on -/
  | create
  /-- the thread of a session goes on -/
  | thread (s : Nat)
  /-- the card has received a packet -/
  | packet
  /-- the callback goes on -/
  | receive
  deriving DecidableEq, Repr

/-- `Single_client`: a second session is refused. -/
def requestSession (sessionSize : Word) (st : State) (ramQuota txBufSize rxBufSize : Word) :
    Option State :=
  match st.ep with
  | .idle =>
      if quotaSuffices sessionSize ramQuota txBufSize rxBufSize then
        some { st with ep := .construct }
      else some st
  | .opened _ => some st
  | _ => none

/-- The steps of `_create_session`; `none` also stands for a null pointer. -/
def createSession (st : State) : Option State :=
  match st.ep with
  | .construct =>
      some { st with
        constructed := st.constructed + 1
        startupLock := Function.update st.startupLock st.constructed true
        ep := .assign st.constructed }
  | .assign s => some { st with session := some s, ep := .start }
  | .start => do
      let s ← st.session
      some { st with threads := Function.update st.threads s .initialise, ep := .wait }
  | .wait => do
      let s ← st.session
      if st.startupLock s then none
      else
        some { st with startupLock := Function.update st.startupLock s true, ep := .opened s }
  | _ => none

def closeSession (st : State) : Option State :=
  match st.ep with
  | .opened s =>
      some { st with
        destroyed := Function.update st.destroyed s true
        threads := Function.update st.threads s .off
        ep := .idle }
  | _ => none

/-- A step of `dde_tx_handler` in the thread of session `s`. -/
def ddeTxHandler (st : State) (s : Nat) : Option State :=
  let goto (p : TxPoint) : State := { st with threads := Function.update st.threads s p }
  match st.threads s with
  | .off => none
  | .initialise => some (goto .register)
  | .register => some { goto .associate with callback := true }
  | .associate => some (goto .ready)
  | .ready => do
      let p ← st.session
      some { goto .sink with startupLock := Function.update st.startupLock p false }
  | .sink => do
      let _ ← st.session
      some (goto .loop)
  | .loop => some st

def ddeRxHandler (st : State) : Option State :=
  match st.rx with
  | .idle => none
  | .source => do
      let s ← st.session
      some { st with rx := .submit s }
  | .submit _ => some { st with rx := .idle }

def step (sessionSize : Word) (st : State) : Action → Option State
  | .open ramQuota txBufSize rxBufSize =>
      requestSession sessionSize st ramQuota txBufSize rxBufSize
  | .close => closeSession st
  | .create => createSession st
  | .thread s => ddeTxHandler st s
  | .packet => if st.callback ∧ st.rx = .idle then some { st with rx := .source } else none
  | .receive => ddeRxHandler st

def machine (sessionSize : Word) : Machine State Action where
  init st := st = .init
  step := step sessionSize

/-- `_session` points to a session that was constructed and not destroyed. -/
def State.Live (st : State) : Prop :=
  ∃ s, st.session = some s ∧ s < st.constructed ∧ st.destroyed s = false

/-- A session is open, or `_session` has been set to one that is being opened. -/
def Entrypoint.inSession : Entrypoint → Bool
  | .start => true
  | .wait => true
  | .opened _ => true
  | _ => false

/-! ## The invariant -/

/-- The entrypoint: `_session` is alive exactly while it is inside a session. -/
structure Pointer (st : State) : Prop where
  constructed : ∀ s, st.session = some s → s < st.constructed
  fresh : ∀ s, st.constructed ≤ s → st.destroyed s = false
  assign : ∀ s, st.ep = .assign s → s < st.constructed ∧ st.destroyed s = false
  inside : st.ep.inSession = true → ∃ s, st.session = some s ∧ st.destroyed s = false
  opened : ∀ s, st.ep = .opened s → st.session = some s
  outside : st.ep.inSession = false → ∀ s, st.session = some s → st.destroyed s = true

/-- The threads: whoever runs, and the callback, came after the first session. -/
structure Started (st : State) : Prop where
  threads : ∀ s, st.threads s ≠ .off → st.session ≠ none
  callback : st.callback = true → st.session ≠ none
  rx : st.rx = .source → st.callback = true

section
variable {st st' : State}

/-- What a request can change. -/
theorem requestSession_some {sessionSize ramQuota txBufSize rxBufSize : Word}
    (hs : requestSession sessionSize st ramQuota txBufSize rxBufSize = some st') :
    st' = st ∨ st.ep = .idle ∧ st' = { st with ep := .construct } := by
  simp only [requestSession] at hs
  split at hs
  · rename_i hep
    split at hs
    · cases hs
      exact .inr ⟨hep, rfl⟩
    · cases hs
      exact .inl rfl
  · cases hs
    exact .inl rfl
  · cases hs

theorem Pointer.request {sessionSize ramQuota txBufSize rxBufSize : Word} (h : Pointer st)
    (hs : requestSession sessionSize st ramQuota txBufSize rxBufSize = some st') :
    Pointer st' := by
  rcases requestSession_some hs with rfl | ⟨hep, rfl⟩
  · exact h
  · exact ⟨h.constructed, h.fresh, nofun, nofun, nofun, fun _ => h.outside (by rw [hep]; rfl)⟩

theorem Pointer.create (h : Pointer st) (hs : createSession st = some st') : Pointer st' := by
  simp only [createSession] at hs
  split at hs
  · rename_i hep
    cases hs
    refine ⟨fun s hsession => (h.constructed s hsession).trans (Nat.lt_succ_self _),
      fun s hle => h.fresh s (Nat.le_of_succ_le hle), ?_, nofun, nofun,
      fun _ => h.outside (by rw [hep]; rfl)⟩
    intro s heq
    cases heq
    exact ⟨Nat.lt_succ_self _, h.fresh _ (Nat.le_refl _)⟩
  · rename_i s hep
    cases hs
    obtain ⟨hlt, halive⟩ := h.assign s hep
    refine ⟨?_, h.fresh, nofun, fun _ => ⟨s, rfl, halive⟩, nofun, nofun⟩
    rintro _ ⟨⟩
    exact hlt
  · rename_i hep
    obtain ⟨s, -, hs⟩ := Option.bind_eq_some_iff.mp hs
    cases hs
    exact ⟨h.constructed, h.fresh, nofun, fun _ => h.inside (by rw [hep]; rfl), nofun, nofun⟩
  · rename_i hep
    obtain ⟨s, hsession, hs⟩ := Option.bind_eq_some_iff.mp hs
    split at hs
    · cases hs
    · cases hs
      refine ⟨h.constructed, h.fresh, nofun, fun _ => h.inside (by rw [hep]; rfl), ?_, nofun⟩
      rintro _ ⟨⟩
      exact hsession
  · cases hs

theorem Pointer.close (h : Pointer st) (hs : closeSession st = some st') : Pointer st' := by
  simp only [closeSession] at hs
  split at hs
  · rename_i s hep
    cases hs
    have hsession := h.opened s hep
    refine ⟨h.constructed, ?_, nofun, nofun, nofun, ?_⟩
    · intro s' hle
      have hne : s' ≠ s := by
        rintro rfl
        exact absurd (h.constructed _ hsession) (Nat.not_lt.mpr hle)
      exact (Function.update_of_ne hne _ _).trans (h.fresh s' hle)
    · -- the pointer is left to the session that is gone
      intro _ s' hs'
      have heq : s' = s := Option.some.inj (hs'.symm.trans hsession)
      rw [heq]
      exact Function.update_self _ _ _
  · cases hs

/-- What the thread of a session can change. -/
theorem ddeTxHandler_some {s : Nat} (hs : ddeTxHandler st s = some st') :
    st.threads s ≠ .off ∧ ∃ threads startupLock callback,
      (st.callback = true → callback = true) ∧
        st' = { st with threads := threads, startupLock := startupLock, callback := callback } := by
  simp only [ddeTxHandler] at hs
  split at hs
  · cases hs
  · rename_i hpoint
    cases hs
    exact ⟨by rw [hpoint]; nofun, _, _, _, id, rfl⟩
  · rename_i hpoint
    cases hs
    exact ⟨by rw [hpoint]; nofun, _, _, true, fun _ => rfl, rfl⟩
  · rename_i hpoint
    cases hs
    exact ⟨by rw [hpoint]; nofun, _, _, _, id, rfl⟩
  · rename_i hpoint
    obtain ⟨p, -, hs⟩ := Option.bind_eq_some_iff.mp hs
    cases hs
    exact ⟨by rw [hpoint]; nofun, _, _, _, id, rfl⟩
  · rename_i hpoint
    obtain ⟨p, -, hs⟩ := Option.bind_eq_some_iff.mp hs
    cases hs
    exact ⟨by rw [hpoint]; nofun, _, _, _, id, rfl⟩
  · rename_i hpoint
    cases hs
    exact ⟨by rw [hpoint]; nofun, _, _, _, id, rfl⟩

/-- What the callback can change. -/
theorem ddeRxHandler_some (hs : ddeRxHandler st = some st') :
    ∃ rx, rx ≠ .source ∧ st' = { st with rx := rx } := by
  simp only [ddeRxHandler] at hs
  split at hs
  · cases hs
  · obtain ⟨s, -, hs⟩ := Option.bind_eq_some_iff.mp hs
    cases hs
    exact ⟨.submit s, nofun, rfl⟩
  · cases hs
    exact ⟨.idle, nofun, rfl⟩

theorem Pointer.step {sessionSize : Word} {a : Action} (h : Pointer st)
    (hs : step sessionSize st a = some st') : Pointer st' := by
  cases a with
  | «open» ramQuota txBufSize rxBufSize => exact h.request hs
  | close => exact h.close hs
  | create => exact h.create hs
  | thread s =>
      obtain ⟨-, threads, startupLock, callback, -, rfl⟩ := ddeTxHandler_some hs
      exact ⟨h.constructed, h.fresh, h.assign, h.inside, h.opened, h.outside⟩
  | packet =>
      simp only [WifiSession.step] at hs
      split at hs
      · cases hs
        exact ⟨h.constructed, h.fresh, h.assign, h.inside, h.opened, h.outside⟩
      · cases hs
  | receive =>
      obtain ⟨rx, -, rfl⟩ := ddeRxHandler_some hs
      exact ⟨h.constructed, h.fresh, h.assign, h.inside, h.opened, h.outside⟩

theorem Started.request {sessionSize ramQuota txBufSize rxBufSize : Word} (h : Started st)
    (hs : requestSession sessionSize st ramQuota txBufSize rxBufSize = some st') :
    Started st' := by
  rcases requestSession_some hs with rfl | ⟨-, rfl⟩
  · exact h
  · exact ⟨h.threads, h.callback, h.rx⟩

theorem Started.create (h : Started st) (hs : createSession st = some st') : Started st' := by
  simp only [createSession] at hs
  split at hs
  · cases hs
    exact ⟨h.threads, h.callback, h.rx⟩
  · cases hs
    exact ⟨nofun, nofun, h.rx⟩
  · obtain ⟨s, hsession, hs⟩ := Option.bind_eq_some_iff.mp hs
    cases hs
    have hne : st.session ≠ none := by
      rw [hsession]
      nofun
    exact ⟨fun _ _ => hne, fun _ => hne, h.rx⟩
  · obtain ⟨s, -, hs⟩ := Option.bind_eq_some_iff.mp hs
    split at hs
    · cases hs
    · cases hs
      exact ⟨h.threads, h.callback, h.rx⟩
  · cases hs

theorem Started.close (h : Started st) (hs : closeSession st = some st') : Started st' := by
  simp only [closeSession] at hs
  split at hs
  · rename_i s hep
    cases hs
    refine ⟨?_, h.callback, h.rx⟩
    intro s' hrunning
    refine h.threads s' ?_
    intro hoff
    rcases eq_or_ne s' s with rfl | hne
    · exact hrunning (Function.update_self _ _ _)
    · exact hrunning ((Function.update_of_ne hne _ _).trans hoff)
  · cases hs

theorem Started.step {sessionSize : Word} {a : Action} (h : Started st)
    (hs : step sessionSize st a = some st') : Started st' := by
  cases a with
  | «open» ramQuota txBufSize rxBufSize => exact h.request hs
  | close => exact h.close hs
  | create => exact h.create hs
  | thread s =>
      obtain ⟨hrunning, threads, startupLock, callback, hcallback, rfl⟩ := ddeTxHandler_some hs
      have hne := h.threads s hrunning
      exact ⟨fun _ _ => hne, fun _ => hne, fun hrx => hcallback (h.rx hrx)⟩
  | packet =>
      simp only [WifiSession.step] at hs
      split at hs
      · rename_i hready
        cases hs
        exact ⟨h.threads, h.callback, fun _ => hready.1⟩
      · cases hs
  | receive =>
      obtain ⟨rx, hrx, rfl⟩ := ddeRxHandler_some hs
      exact ⟨h.threads, h.callback, fun hsource => absurd hsource hrx⟩

end

theorem reachable_invariants {sessionSize : Word} {st : State}
    (h : (machine sessionSize).Reachable st) : Pointer st ∧ Started st := by
  induction h with
  | init hst =>
      rw [show _ = State.init from hst]
      exact ⟨⟨nofun, fun _ _ => rfl, nofun, nofun, nofun, nofun⟩,
        ⟨fun _ hoff => absurd rfl hoff, nofun, nofun⟩⟩
  | step a _ _ hs ih => exact ⟨ih.1.step hs, ih.2.step hs⟩

/-! ## The result -/

/-- **The session of the callback.**  In every state that openings, closings, the threads
of the sessions and the receive thread can reach: when the callback is about to follow
`_session`, the pointer is not null, and it leads to a session that was created and not
destroyed if and only if a session is open, or is being opened and `_session` has been set
to it. -/
theorem rx_session_live_iff {sessionSize : Word} {st : State}
    (h : (machine sessionSize).Reachable st) (hrx : st.rx = .source) :
    st.session ≠ none ∧ (st.Live ↔ st.ep.inSession = true) := by
  obtain ⟨hpointer, hstarted⟩ := reachable_invariants h
  refine ⟨hstarted.callback (hstarted.rx hrx), ?_⟩
  constructor
  · rintro ⟨s, hsession, -, halive⟩
    by_contra hout
    have hgone := hpointer.outside (Bool.eq_false_iff.mpr hout) s hsession
    rw [halive] at hgone
    cases hgone
  · intro hin
    obtain ⟨s, hsession, halive⟩ := hpointer.inside hin
    exact ⟨s, hsession, hpointer.constructed s hsession, halive⟩

/-- A session is opened, and its thread waits for packets to send. -/
def openFirst : List Action :=
  [.open 8192 1024 1024, .create, .create, .create, .thread 0, .thread 0, .thread 0, .thread 0,
    .create, .thread 0]

/-- A packet for an open session. -/
theorem rx_session_live_open :
    ∃ st, (machine 4096).run .init (openFirst ++ [.packet]) = some st ∧ st.rx = .source ∧
      st.Live := by
  have hrun : ((machine 4096).run .init (openFirst ++ [.packet])).map (fun st => (st.rx, st.ep)) =
      some (.source, .opened 0) := by decide
  obtain ⟨st, hst, hvals⟩ := Option.map_eq_some_iff.mp hrun
  obtain ⟨hrx, hep⟩ := Prod.mk.inj hvals
  have hreach : (machine 4096).Reachable st := Machine.Reachable.run (.init rfl) _ hst
  exact ⟨st, hst, hrx, (rx_session_live_iff hreach hrx).2.mpr (by rw [hep]; rfl)⟩

/-- **A session that is gone.**  It is closed, and a packet arrives. -/
theorem rx_session_destroyed :
    ∃ st, (machine 4096).run .init (openFirst ++ [.close, .packet]) = some st ∧
      st.rx = .source ∧ st.session = some 0 ∧ st.destroyed 0 = true ∧ ¬ st.Live := by
  have hrun : ((machine 4096).run .init (openFirst ++ [.close, .packet])).map
      (fun st => (st.rx, st.session, st.destroyed 0)) = some (.source, some 0, true) := by decide
  obtain ⟨st, hst, hvals⟩ := Option.map_eq_some_iff.mp hrun
  obtain ⟨hrx, hvals⟩ := Prod.mk.inj hvals
  obtain ⟨hsession, hgone⟩ := Prod.mk.inj hvals
  refine ⟨st, hst, hrx, hsession, hgone, ?_⟩
  rintro ⟨s, hs, -, halive⟩
  rw [hsession] at hs
  cases hs
  rw [hgone] at halive
  cases halive

/-! ## The quota

The two sizes are compared with the quota one by one, "to handle a possible overflow of the sum
of both sizes".  That handles it as long as the quota is below one half of the address space. -/

/-- The quota pays for the session and both buffers. -/
def QuotaCovers (sessionSize ramQuota txBufSize rxBufSize : Word) : Prop :=
  sessionSize.toNat + txBufSize.toNat + rxBufSize.toNat ≤ ramQuota.toNat

instance (sessionSize ramQuota txBufSize rxBufSize : Word) :
    Decidable (QuotaCovers sessionSize ramQuota txBufSize rxBufSize) :=
  inferInstanceAs (Decidable (_ ≤ _))

/-- The check, as numbers. -/
theorem quotaSuffices_eq_true_iff (sessionSize ramQuota txBufSize rxBufSize : Word) :
    quotaSuffices sessionSize ramQuota txBufSize rxBufSize = true ↔
      sessionSize.toNat ≤ ramQuota.toNat ∧
      sessionSize.toNat + txBufSize.toNat ≤ ramQuota.toNat ∧
      sessionSize.toNat + rxBufSize.toNat ≤ ramQuota.toNat ∧
      sessionSize.toNat + (txBufSize.toNat + rxBufSize.toNat) % 2 ^ 32 ≤ ramQuota.toNat := by
  have hq := ramQuota.isLt
  simp only [quotaSuffices, Bool.and_eq_true, Bool.not_eq_true', Bool.or_eq_false_iff,
    decide_eq_false_iff_not, gt_iff_lt, BitVec.lt_def, BitVec.toNat_sub, BitVec.toNat_add,
    Nat.not_lt]
  omega

/-- **When the quota check is exact.**  For all sizes: the check passes exactly if the quota pays
for everything, unless each buffer fits on its own and their sizes wrap around when they are
added. -/
theorem quotaSuffices_exact_iff (sessionSize ramQuota txBufSize rxBufSize : Word) :
    (quotaSuffices sessionSize ramQuota txBufSize rxBufSize = true ↔
      QuotaCovers sessionSize ramQuota txBufSize rxBufSize) ↔
    ¬ (sessionSize.toNat + txBufSize.toNat ≤ ramQuota.toNat ∧
        sessionSize.toNat + rxBufSize.toNat ≤ ramQuota.toNat ∧
        2 ^ 32 ≤ txBufSize.toNat + rxBufSize.toNat) := by
  have hq := ramQuota.isLt
  rw [quotaSuffices_eq_true_iff, QuotaCovers]
  omega

/-- **Two buffers that are larger than all memory together.**  The session is constructed. -/
theorem quota_wraps :
    ((machine 4096).run .init [.open 0xffffffff 0x80000000 0x80000000]).map (·.ep) =
        some .construct ∧
      quotaSuffices 4096 0xffffffff 0x80000000 0x80000000 = true ∧
      ¬ QuotaCovers 4096 0xffffffff 0x80000000 0x80000000 := by
  decide

end LinuxDrivers.Net.WifiSession
