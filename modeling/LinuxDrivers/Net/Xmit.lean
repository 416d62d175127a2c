/-
# `LinuxDrivers.Net.Xmit` — threads that send packets

Any number of threads send packets through one device at the same time.  Each does what
`dev_queue_xmit` (`net/core/dev.c`) does for a device with queues: it takes `queue_lock`, enters its
packet, and runs the queue, unless `__LINK_STATE_QDISC_RUNNING` says that somebody does so already.
`qdisc_restart` (`net/sched/sch_generic.c`) releases the lock while the driver has the packet, so
the other threads come in between.

Three more parties take part.  The driver stops the queue when it has no room and wakes it when it
has; to wake it puts the device on the output queue and raises a softirq.  The softirq, in a thread
of its own, runs the queue again, or puts the device back if `queue_lock` is taken.  And there are
functions that take the lock of the driver with `netif_tx_lock` for something else: the timer of the
watchdog, `dev_watchdog_down`, `netif_tx_disable`, and `dev_mc_upload`, `_add` and `_delete`.

Every access to the state of the device is a step of its own; what `queue_lock` protects is one
step.  So is a change of the output queue, though to disable interrupts only counts here: there is
one device, so it is on the queue or not, and between the one who has set `__LINK_STATE_SCHED` and
the softirq nobody else changes that.  With a second device this would not be so.

The processor has always the number 0 here, so `xmit_lock_owner` does not say who has the lock of
the driver, but only whether somebody has it.  Therefore `qdisc_restart` takes any collision for a
dead loop, and drops the packet.  It is also freed if it has to be cut and cannot be.

**Proved here.**

    for all runs, no packet is doubled, overtaken by a later one of its queue, or lost other than
    in these two ways; the driver is called by one thread at a time; and whenever packets wait and
    the driver has not stopped the queue, the device is on the output queue or a thread is on its
    way to send them                                                      (`qdisc_keeps_packets`)
    as long as nothing but `qdisc_restart` takes the lock of the driver, no packet is dropped for a
    dead loop; and with a function that does, any packet may be, though there is no loop
                                                                      (`dead_loop_is_contention`)
-/
import LinuxDrivers.Lib.Interleave
import LinuxDrivers.Net.Qdisc

namespace LinuxDrivers.Net.Xmit

open LinuxDrivers.Lib LinuxDrivers.Net.Sched

/-! ## The program -/

/-- What `hard_start_xmit` returns; every other value is treated as `NETDEV_TX_BUSY`. -/
inductive Ret where
  | ok
  | busy
  | locked
  deriving DecidableEq, Repr

/-- How `qdisc_restart` goes on when it has `queue_lock` again. -/
inductive After where
  | sent
  | requeue (skb : Skb)
  | collision (skb : Skb)
  deriving DecidableEq, Repr

/-- Who has called `netif_schedule` or `__netif_schedule`. -/
inductive Caller where
  | runner
  | other
  | holder
  deriving DecidableEq, Repr

inductive Pc where
  | idle
  /-- `dev_queue_xmit` -/
  | lock (skb : Skb)
  | enqueue (skb : Skb)
  /-- `qdisc_run` -/
  | run
  | claim
  /-- `qdisc_restart` -/
  | restart
  | trylock (skb : Skb)
  | own (skb : Skb)
  | release (skb : Skb)
  | check (skb : Skb)
  /-- `dev_hard_start_xmit` -/
  | xmit (skb : Skb)
  | call (skb : Skb)
  | stopTest (skb : Skb)
  /-- the rest of `qdisc_restart` -/
  | disown (r : After)
  | txUnlock (r : After)
  | relock (r : After)
  | collision (skb : Skb)
  | requeue (skb : Skb)
  /-- `netif_schedule` -/
  | schedule (k : Caller)
  | schedSet (k : Caller)
  | schedList (k : Caller)
  /-- `__qdisc_run` -/
  | loopTest
  | clear
  | unlock
  /-- `net_tx_action` -/
  | txAction
  | tryQueue
  /-- a caller of `netif_tx_lock` -/
  | holdLock
  | holdOwn
  | holdBody
  | holdDisown
  | holdUnlock
  deriving DecidableEq, Repr

structure Shared where
  queueLock : Bool
  /-- `_xmit_lock` -/
  txLock : Bool
  /-- `xmit_lock_owner` is 0, and not -1 -/
  owner : Bool
  /-- `__LINK_STATE_XOFF` -/
  xoff : Bool
  /-- `__LINK_STATE_SCHED` -/
  sched : Bool
  /-- `__LINK_STATE_QDISC_RUNNING` -/
  running : Bool
  /-- the device is on the output queue, and the softirq raised -/
  listed : Bool
  backlog : Backlog

inductive Choice where
  | go
  | devQueueXmit (skb : Skb)
  | netTxAction
  | netifStopQueue
  | netifWakeQueue
  /-- of `dev_watchdog`, `netif_tx_disable`, `dev_mc_upload` and others -/
  | netifTxLock
  /-- the driver returns, and may stop the queue before -/
  | driver (ret : Ret) (stop : Bool)
  deriving DecidableEq, Repr

/-- `netif_wake_queue` -/
def netifWakeQueue (g : Shared) (k : Caller) (done : Pc) : Shared × Pc :=
  ({ g with xoff := false }, if g.xoff then .schedSet k else done)

/-- The lock of the driver is released, unless the driver has its own. -/
def leave (dev : NetDevice) (r : After) : Pc := if dev.lltx then .relock r else .disown r

/-- What `qdisc_restart` makes of a return value other than 0. -/
def refused (dev : NetDevice) (ret : Ret) (skb : Skb) : Pc :=
  if ret = .locked ∧ dev.lltx then .relock (.collision skb) else leave dev (.requeue skb)

/-- The packet is cut if it has to be; if that fails, it is freed and counts as sent. -/
def segment (dev : NetDevice) (g : Shared) (skb : Skb) : Shared × Pc :=
  if skb.next = [] ∧ dev.needsGso skb.frame then
    match dev.gsoSegment skb.frame with
    | none => ({ g with backlog := g.backlog.finish skb [skb.frame] .uncut }, leave dev .sent)
    | some segs => (g, .call { skb with next := segs })
  else (g, .call skb)

/-- The driver has taken a frame. -/
def taken (dev : NetDevice) (g : Shared) (skb : Skb) : Shared × Pc :=
  match skb.next with
  | [] => ({ g with backlog := g.backlog.finish skb [skb.frame] .sent }, leave dev .sent)
  | [f] => ({ g with backlog := g.backlog.finish skb [f] .sent }, leave dev .sent)
  | f :: f' :: fs =>
      ({ g with backlog := g.backlog.finish skb [f] .sent },
        .stopTest { skb with next := f' :: fs })

/-- `hard_start_xmit` returns. -/
def answered (dev : NetDevice) (g : Shared) (skb : Skb) (ret : Ret) (stop : Bool) : Shared × Pc :=
  let g := { g with xoff := g.xoff || stop }
  if ret = .ok then taken dev g skb else (g, refused dev ret skb)

def After.pc : After → Pc
  | .sent => .loopTest
  | .requeue skb => .requeue skb
  | .collision skb => .collision skb

def Caller.pc : Caller → Pc
  | .runner => .clear
  | .other => .idle
  | .holder => .holdBody

/-- One access of a thread. -/
def step (dev : NetDevice) (g : Shared) (pc : Pc) (a : Choice) : Option (Shared × Pc) :=
  match pc with
  | .idle =>
      match a with
      | .devQueueXmit skb => some (g, .lock skb)
      | .netTxAction => if g.listed then some ({ g with listed := false }, .txAction) else none
      | .netifStopQueue => some ({ g with xoff := true }, .idle)
      | .netifWakeQueue => some (netifWakeQueue g .other .idle)
      | .netifTxLock => some (g, .holdLock)
      | _ => none
  | .lock skb => if g.queueLock then none else some ({ g with queueLock := true }, .enqueue skb)
  | .enqueue skb => some ({ g with backlog := g.backlog.enqueue dev skb }, .run)
  | .run => some (g, if g.xoff then .unlock else .claim)
  | .claim => some ({ g with running := true }, if g.running then .unlock else .restart)
  | .restart =>
      match g.backlog.take with
      | none => some (g, .clear)
      | some (skb, backlog) =>
          some ({ g with backlog := backlog }, if dev.lltx then .release skb else .trylock skb)
  | .trylock skb =>
      if g.txLock then some (g, .collision skb) else some ({ g with txLock := true }, .own skb)
  | .own skb => some ({ g with owner := true }, .release skb)
  | .release skb => some ({ g with queueLock := false }, .check skb)
  | .check skb => some (g, if g.xoff then leave dev (.requeue skb) else .xmit skb)
  | .xmit skb => some (segment dev g skb)
  | .call skb =>
      match a with
      | .driver ret stop => some (answered dev g skb ret stop)
      | _ => none
  | .stopTest skb => some (g, if g.xoff then refused dev .busy skb else .call skb)
  | .disown r => some ({ g with owner := false }, .txUnlock r)
  | .txUnlock r => some ({ g with txLock := false }, .relock r)
  | .relock r => if g.queueLock then none else some ({ g with queueLock := true }, r.pc)
  | .collision skb =>
      -- `smp_processor_id()` is 0
      if g.owner then
        some ({ g with backlog := g.backlog.finish skb (contents dev skb) .deadLoop }, .loopTest)
      else some (g, .requeue skb)
  | .requeue skb => some ({ g with backlog := g.backlog.requeue skb }, .schedule .runner)
  | .schedule k => some (g, if g.xoff then k.pc else .schedSet k)
  | .schedSet k => some ({ g with sched := true }, if g.sched then k.pc else .schedList k)
  | .schedList k => some ({ g with listed := true }, k.pc)
  | .loopTest => some (g, if g.xoff then .clear else .restart)
  | .clear => some ({ g with running := false }, .unlock)
  | .unlock => some ({ g with queueLock := false }, .idle)
  | .txAction => some ({ g with sched := false }, .tryQueue)
  | .tryQueue =>
      if g.queueLock then some (g, .schedule .other)
      else some ({ g with queueLock := true }, .run)
  | .holdLock => if g.txLock then none else some ({ g with txLock := true }, .holdOwn)
  | .holdOwn => some ({ g with owner := true }, .holdBody)
  | .holdBody =>
      -- `netif_tx_disable` stops the queue, `tx_timeout` or `set_multicast_list` may wake it
      match a with
      | .netifStopQueue => some ({ g with xoff := true }, .holdBody)
      | .netifWakeQueue => some (netifWakeQueue g .holder .holdBody)
      | .go => some (g, .holdDisown)
      | _ => none
  | .holdDisown => some ({ g with owner := false }, .holdUnlock)
  | .holdUnlock => some ({ g with txLock := false }, .idle)

structure Start (g : Shared) : Prop where
  queueLock : g.queueLock = false
  txLock : g.txLock = false
  owner : g.owner = false
  sched : g.sched = false
  running : g.running = false
  listed : g.listed = false
  backlog : g.backlog = .empty

def prog (dev : NetDevice) : Prog Shared Pc Choice where
  init := Start
  start pc := pc = .idle
  step _ := step dev

def machine (dev : NetDevice) : Machine (Conf Shared Pc) (Nat × Choice) := (prog dev).machine

/-! ## The places of a thread -/

/-- A thread that has `queue_lock`. -/
def locks : Pc → Nat
  | .enqueue _ | .run | .claim | .restart | .trylock _ | .own _ | .release _ | .collision _
  | .requeue _ | .schedule .runner | .schedSet .runner | .schedList .runner | .loopTest | .clear
  | .unlock => 1
  | _ => 0

/-- The thread that runs the queue. -/
def runs : Pc → Nat
  | .restart | .trylock _ | .own _ | .release _ | .check _ | .xmit _ | .call _ | .stopTest _
  | .disown _ | .txUnlock _ | .relock _ | .collision _ | .requeue _ | .schedule .runner
  | .schedSet .runner | .schedList .runner | .loopTest | .clear => 1
  | _ => 0

def After.hand : After → List Skb
  | .sent => []
  | .requeue skb | .collision skb => [skb]

/-- The packet that a thread has taken out. -/
def Pc.hand : Pc → List Skb
  | .trylock skb | .own skb | .release skb | .check skb | .xmit skb | .call skb | .stopTest skb
  | .collision skb | .requeue skb => [skb]
  | .disown r | .txUnlock r | .relock r => r.hand
  | _ => []

/-- A thread that is going to look at the queue, or to put the device on the output queue. -/
def Pc.kicks : Pc → Bool
  | .run | .claim | .restart | .trylock _ | .own _ | .release _ | .check _ | .xmit _ | .call _
  | .stopTest _ | .disown _ | .txUnlock _ | .relock _ | .collision _ | .requeue _ | .schedule _
  | .schedSet _ | .loopTest | .tryQueue => true
  | _ => false

/-- A thread that has set `__LINK_STATE_SCHED`, or is going to clear it. -/
def lists : Pc → Nat
  | .schedList _ | .txAction => 1
  | _ => 0

/-! ## What a step can do -/

section
variable {dev : NetDevice} {g g' : Shared} {pc pc' : Pc} {a : Choice}

/-- A thread that runs the queue and does not have `queue_lock`. -/
def Pc.sends : Pc → Bool
  | .check _ | .xmit _ | .call _ | .stopTest _ | .disown _ | .txUnlock _ | .relock _ => true
  | _ => false

theorem places_of_sends (h : pc.sends = true) :
    runs pc = 1 ∧ locks pc = 0 ∧ pc.kicks = true ∧ lists pc = 0 := by
  cases pc <;> first | exact ⟨rfl, rfl, rfl, rfl⟩ | cases h

theorem sends_of_runs (hruns : runs pc = 1) (hlocks : locks pc = 0) : pc.sends = true := by
  cases pc with
  | schedule k | schedSet k | schedList k =>
      cases k <;> first | (cases hlocks; done) | cases hruns
  | _ => first | rfl | (cases hlocks; done) | cases hruns

theorem leave_sends (r : After) : (leave dev r).sends = true ∧ (leave dev r).hand = r.hand := by
  unfold leave
  split <;> exact ⟨rfl, rfl⟩

theorem refused_sends (ret : Ret) (skb : Skb) :
    (refused dev ret skb).sends = true ∧ (refused dev ret skb).hand = [skb] := by
  unfold refused
  split
  · exact ⟨rfl, rfl⟩
  · exact leave_sends (.requeue skb)

/-- What the code around the driver leaves alone. -/
structure Keeps (g g' : Shared) : Prop where
  queueLock : g'.queueLock = g.queueLock
  txLock : g'.txLock = g.txLock
  owner : g'.owner = g.owner
  xoff : g.xoff = true → g'.xoff = true
  sched : g'.sched = g.sched
  running : g'.running = g.running
  listed : g'.listed = g.listed

theorem segment_sends (dev : NetDevice) (g : Shared) (skb : Skb) :
    Keeps g (segment dev g skb).1 ∧ (segment dev g skb).2.sends = true := by
  unfold segment
  split
  · split
    · exact ⟨⟨rfl, rfl, rfl, id, rfl, rfl, rfl⟩, (leave_sends _).1⟩
    · exact ⟨⟨rfl, rfl, rfl, id, rfl, rfl, rfl⟩, rfl⟩
  · exact ⟨⟨rfl, rfl, rfl, id, rfl, rfl, rfl⟩, rfl⟩

theorem answered_sends (dev : NetDevice) (g : Shared) (skb : Skb) (ret : Ret) (stop : Bool) :
    Keeps g (answered dev g skb ret stop).1 ∧ (answered dev g skb ret stop).2.sends = true := by
  have hxoff : g.xoff = true → (g.xoff || stop) = true := by
    intro h
    rw [h]
    rfl
  unfold answered
  simp only
  split
  · unfold taken
    split
    · exact ⟨⟨rfl, rfl, rfl, hxoff, rfl, rfl, rfl⟩, (leave_sends _).1⟩
    · exact ⟨⟨rfl, rfl, rfl, hxoff, rfl, rfl, rfl⟩, (leave_sends _).1⟩
    · exact ⟨⟨rfl, rfl, rfl, hxoff, rfl, rfl, rfl⟩, rfl⟩
  · exact ⟨⟨rfl, rfl, rfl, hxoff, rfl, rfl, rfl⟩, (refused_sends _ _).1⟩

/-- The steps of `dev_hard_start_xmit`, and the test before it. -/
def Pc.driving : Pc → Bool
  | .check _ | .xmit _ | .call _ | .stopTest _ => true
  | _ => false

theorem step_driving (hpc : pc.driving = true) (hs : step dev g pc a = some (g', pc')) :
    Keeps g g' ∧ pc'.sends = true := by
  cases pc with
  | check skb =>
      cases hs
      refine ⟨⟨rfl, rfl, rfl, id, rfl, rfl, rfl⟩, ?_⟩
      split
      · exact (leave_sends _).1
      · rfl
  | xmit skb =>
      have hall := segment_sends dev g skb
      rw [show segment dev g skb = (g', pc') from Option.some.inj hs] at hall
      exact hall
  | call skb =>
      cases a with
      | driver ret stop =>
          have hall := answered_sends dev g skb ret stop
          rw [show answered dev g skb ret stop = (g', pc') from Option.some.inj hs] at hall
          exact hall
      | _ => cases hs
  | stopTest skb =>
      cases hs
      refine ⟨⟨rfl, rfl, rfl, id, rfl, rfl, rfl⟩, ?_⟩
      split
      · exact (refused_sends _ _).1
      · rfl
  | _ => cases hpc

/-- Threads that have to do with the flags of the device, but neither with the queue nor with its
packets: all that are not in a call, and those that have the transmit lock. -/
def Pc.outside : Pc → Bool
  | .idle | .holdBody => true
  | _ => false

structure Outside (g g' : Shared) (pc' : Pc) : Prop where
  queueLock : g'.queueLock = g.queueLock
  running : g'.running = g.running
  backlog : g'.backlog = g.backlog
  locks : locks pc' = 0
  runs : runs pc' = 0

theorem step_outside (hpc : pc.outside = true) (hs : step dev g pc a = some (g', pc')) :
    Outside g g' pc' := by
  cases pc with
  | idle =>
      cases a with
      | netTxAction =>
          simp only [step] at hs
          split at hs <;> cases hs
          exact ⟨rfl, rfl, rfl, rfl, rfl⟩
      | netifWakeQueue =>
          cases hs
          split <;> exact ⟨rfl, rfl, rfl, rfl, rfl⟩
      | devQueueXmit | netifStopQueue | netifTxLock =>
          cases hs
          exact ⟨rfl, rfl, rfl, rfl, rfl⟩
      | _ => cases hs
  | holdBody =>
      cases a with
      | netifWakeQueue =>
          cases hs
          split <;> exact ⟨rfl, rfl, rfl, rfl, rfl⟩
      | go | netifStopQueue =>
          cases hs
          exact ⟨rfl, rfl, rfl, rfl, rfl⟩
      | _ => cases hs
  | _ => cases hpc

open Prog in
/-- The queue lock and the flag `__LINK_STATE_QDISC_RUNNING`: a step takes what was free, or gives
back what the thread has. -/
theorem step_toggles (hs : step dev g pc a = some (g', pc')) :
    Toggles g.queueLock (locks pc) g'.queueLock (locks pc') ∧
      Toggles g.running (runs pc) g'.running (runs pc') := by
  have hdriving : pc.driving = true → Toggles g.queueLock (locks pc) g'.queueLock (locks pc') ∧
      Toggles g.running (runs pc) g'.running (runs pc') := by
    intro hpc
    obtain ⟨hkeeps, hsends⟩ := step_driving hpc hs
    obtain ⟨hruns, hlocks, -⟩ := places_of_sends hsends
    rw [hkeeps.queueLock, hkeeps.running, hlocks, hruns]
    cases pc with
    | check | xmit | call | stopTest => exact ⟨.same _ _, .same _ _⟩
    | _ => cases hpc
  cases pc with
  | check | xmit | call | stopTest => exact hdriving rfl
  | idle | holdBody =>
      obtain ⟨hlock, hrunning, -, hlocks, hruns⟩ := step_outside rfl hs
      rw [hlock, hrunning, hlocks, hruns]
      exact ⟨.same _ _, .same _ _⟩
  | lock skb =>
      simp only [step] at hs
      split at hs <;> cases hs
      rename_i hfree
      rw [Bool.eq_false_iff.mpr hfree]
      exact ⟨.take, .same _ _⟩
  | relock r =>
      simp only [step] at hs
      split at hs <;> cases hs
      rename_i hfree
      rw [Bool.eq_false_iff.mpr hfree]
      cases r <;> exact ⟨.take, .same _ _⟩
  | tryQueue =>
      simp only [step] at hs
      split at hs <;> cases hs
      · exact ⟨.same _ _, .same _ _⟩
      · rename_i hfree
        rw [Bool.eq_false_iff.mpr hfree]
        exact ⟨.take, .same _ _⟩
  | release | unlock =>
      cases hs
      exact ⟨.give _, .same _ _⟩
  | claim =>
      cases hs
      split
      · rename_i hrunning
        rw [hrunning]
        exact ⟨.same _ _, .same _ _⟩
      · rename_i hidle
        rw [Bool.eq_false_iff.mpr hidle]
        exact ⟨.same _ _, .take⟩
  | clear =>
      cases hs
      exact ⟨.same _ _, .give _⟩
  | run | loopTest =>
      cases hs
      split <;> exact ⟨.same _ _, .same _ _⟩
  | restart =>
      simp only [step] at hs
      split at hs <;> cases hs
      · exact ⟨.same _ _, .same _ _⟩
      · split <;> exact ⟨.same _ _, .same _ _⟩
  | schedule k | schedSet k =>
      cases hs
      split <;> cases k <;> exact ⟨.same _ _, .same _ _⟩
  | schedList k =>
      cases hs
      cases k <;> exact ⟨.same _ _, .same _ _⟩
  | _ =>
      simp only [step] at hs
      (try split at hs) <;> cases hs <;> exact ⟨.same _ _, .same _ _⟩

/-- What a step does to the output queue. -/
inductive Lists (g : Shared) (n : Nat) (g' : Shared) (n' : Nat) : Prop
  | same (hsched : g'.sched = g.sched) (hlisted : g'.listed = g.listed) (hn : n' = n)
  /-- `test_and_set_bit` -/
  | set (hsched : g.sched = false) (hsched' : g'.sched = true) (hlisted : g'.listed = g.listed)
      (hn : n' = n + 1)
  | list (hsched : g'.sched = g.sched) (hlisted : g'.listed = true) (hn : n = n' + 1)
  /-- the softirq takes the output queue -/
  | take (hsched : g'.sched = g.sched) (hlisted : g.listed = true) (hlisted' : g'.listed = false)
      (hn : n' = n + 1)
  | clear (hsched : g'.sched = false) (hlisted : g'.listed = g.listed) (hn : n = n' + 1)

theorem lists_caller (k : Caller) : lists k.pc = 0 := by
  cases k <;> rfl

theorem step_lists (hs : step dev g pc a = some (g', pc')) :
    Lists g (lists pc) g' (lists pc') := by
  have hdriving : pc.driving = true → Lists g (lists pc) g' (lists pc') := by
    intro hpc
    obtain ⟨hkeeps, hsends⟩ := step_driving hpc hs
    refine .same hkeeps.sched hkeeps.listed ?_
    rw [(places_of_sends hsends).2.2.2]
    cases pc with
    | check | xmit | call | stopTest => rfl
    | _ => cases hpc
  cases pc with
  | check | xmit | call | stopTest => exact hdriving rfl
  | idle =>
      cases a with
      | netTxAction =>
          simp only [step] at hs
          split at hs <;> cases hs
          rename_i hlisted
          exact .take rfl hlisted rfl rfl
      | netifWakeQueue =>
          cases hs
          split <;> exact .same rfl rfl rfl
      | devQueueXmit | netifStopQueue | netifTxLock =>
          cases hs
          exact .same rfl rfl rfl
      | _ => cases hs
  | relock r =>
      simp only [step] at hs
      split at hs <;> cases hs
      cases r <;> exact .same rfl rfl rfl
  | run | claim | loopTest =>
      cases hs
      split <;> exact .same rfl rfl rfl
  | restart =>
      simp only [step] at hs
      split at hs <;> cases hs
      · exact .same rfl rfl rfl
      · split <;> exact .same rfl rfl rfl
  | schedule k =>
      cases hs
      split
      · exact .same rfl rfl (lists_caller k)
      · exact .same rfl rfl rfl
  | schedSet k =>
      cases hs
      split
      · rename_i hsched
        exact .same hsched.symm rfl (lists_caller k)
      · rename_i hsched
        exact .set (Bool.eq_false_iff.mpr hsched) rfl rfl rfl
  | schedList k =>
      cases hs
      exact .list rfl rfl (by rw [lists_caller]; rfl)
  | txAction =>
      cases hs
      exact .clear rfl rfl rfl
  | holdBody =>
      cases a with
      | netifWakeQueue =>
          cases hs
          split <;> exact .same rfl rfl rfl
      | go | netifStopQueue =>
          cases hs
          exact .same rfl rfl rfl
      | _ => cases hs
  | _ =>
      simp only [step] at hs
      (try split at hs) <;> cases hs <;> exact .same rfl rfl rfl

/-- Who looks after the packets that wait, after a step: the thread itself, the driver, the softirq
or another thread. -/
inductive Kicks (g : Shared) (pc : Pc) (g' : Shared) (pc' : Pc) : Prop
  | thread (h : pc'.kicks = true)
  | driver (h : g'.xoff = true)
  | softirq (h : g'.sched = true)
  | idle (h : g'.backlog.Idle)
  /-- somebody runs the queue -/
  | runner (hpc : pc = .claim) (hrunning : g.running = true)
  /-- it was somebody else's business before, and still is -/
  | other (hpc : pc.kicks = false) (hbacklog : g'.backlog = g.backlog)
      (hxoff : g.xoff = true → g'.xoff = true) (hsched : g.sched = true → g'.sched = true)

theorem netifWakeQueue_kicks (k : Caller) {done : Pc} (hpc : pc.kicks = false) :
    Kicks g pc (netifWakeQueue g k done).1 (netifWakeQueue g k done).2 := by
  unfold netifWakeQueue
  split
  · exact .thread rfl
  · rename_i hxoff
    exact .other hpc rfl (fun h => absurd h hxoff) id

theorem step_kicks (hs : step dev g pc a = some (g', pc')) : Kicks g pc g' pc' := by
  have hdriving : pc.driving = true → Kicks g pc g' pc' := by
    intro hpc
    exact .thread (places_of_sends (step_driving hpc hs).2).2.2.1
  cases pc with
  | check | xmit | call | stopTest => exact hdriving rfl
  | idle =>
      cases a with
      | netTxAction =>
          simp only [step] at hs
          split at hs <;> cases hs
          exact .other rfl rfl id id
      | netifWakeQueue =>
          cases hs
          exact netifWakeQueue_kicks .other rfl
      | netifStopQueue =>
          cases hs
          exact .driver rfl
      | devQueueXmit | netifTxLock =>
          cases hs
          exact .other rfl rfl id id
      | _ => cases hs
  | run | loopTest =>
      cases hs
      split
      · rename_i hxoff
        exact .driver hxoff
      · exact .thread rfl
  | claim =>
      cases hs
      split
      · rename_i hrunning
        exact .runner rfl hrunning
      · exact .thread rfl
  | restart =>
      simp only [step] at hs
      split at hs <;> cases hs
      · rename_i hnone
        exact .idle (Backlog.take_none hnone)
      · split <;> exact .thread rfl
  | relock r =>
      simp only [step] at hs
      split at hs <;> cases hs
      cases r <;> exact .thread rfl
  | schedule k =>
      cases hs
      split
      · rename_i hxoff
        exact .driver hxoff
      · exact .thread rfl
  | schedSet k =>
      cases hs
      exact .softirq rfl
  | trylock | tryQueue | collision =>
      simp only [step] at hs
      split at hs <;> cases hs <;> exact .thread rfl
  | enqueue | own | release | disown | txUnlock | requeue | txAction =>
      cases hs
      exact .thread rfl
  | holdBody =>
      cases a with
      | netifWakeQueue =>
          cases hs
          exact netifWakeQueue_kicks .holder rfl
      | netifStopQueue =>
          cases hs
          exact .driver rfl
      | go =>
          cases hs
          exact .other rfl rfl id id
      | _ => cases hs
  | lock | holdLock =>
      simp only [step] at hs
      split at hs <;> cases hs
      exact .other rfl rfl id id
  | schedList | clear | unlock | holdOwn | holdDisown | holdUnlock =>
      cases hs
      exact .other rfl rfl id id

/-! ## The packets -/

/-- The driver gets a packet that has been cut, or one that need not be; and its lock is taken only
if it does not have its own. -/
def Ready (dev : NetDevice) : Pc → Prop
  | .call skb => skb.next = [] → contents dev skb = [skb.frame]
  | .stopTest skb => skb.next ≠ []
  | .trylock _ | .own _ => dev.lltx = false
  | _ => True

/-- Who does not run the queue has no packet. -/
theorem hand_nil (h : runs pc = 0) : pc.hand = [] := by
  cases pc with
  | _ => first | rfl | cases h

theorem ready_of_runs (h : runs pc = 0) : Ready dev pc := by
  cases pc <;> trivial

theorem leave_ready (r : After) : Ready dev (leave dev r) := by
  unfold leave
  split <;> trivial

theorem refused_ready (ret : Ret) (skb : Skb) : Ready dev (refused dev ret skb) := by
  unfold refused
  split
  · trivial
  · exact leave_ready _

/-- A packet that is cut has the same frames as before. -/
theorem contents_cut {skb : Skb} (hnext : skb.next = []) (hneeds : dev.needsGso skb.frame = true)
    {segs : List Nat} (hsegs : dev.gsoSegment skb.frame = some segs) :
    contents dev { skb with next := segs } = contents dev skb := by
  cases segs with
  | nil => rw [show { skb with next := [] } = skb by rw [← hnext]]
  | cons f fs => simp only [contents, hnext, hneeds, hsegs, if_true]

theorem contents_uncut {skb : Skb} (hnext : skb.next = [])
    (h : dev.needsGso skb.frame = true → dev.gsoSegment skb.frame = none ∨
      dev.gsoSegment skb.frame = some []) : contents dev skb = [skb.frame] := by
  simp only [contents, hnext]
  split
  · rename_i hneeds
    rcases h hneeds with hnone | hnil
    · rw [hnone]
    · rw [hnil]
  · rfl

theorem segment_ready (dev : NetDevice) (g : Shared) (skb : Skb) :
    Ready dev (segment dev g skb).2 := by
  unfold segment
  split
  · rename_i hcut
    split
    · exact leave_ready _
    · rename_i segs hsegs
      intro hnil
      exact contents_uncut hnil (fun _ => .inr (hsegs.trans (congrArg some hnil)))
  · rename_i hcut
    intro hnext
    exact contents_uncut hnext (fun hneeds => absurd ⟨hnext, hneeds⟩ hcut)

theorem answered_ready (dev : NetDevice) (g : Shared) (skb : Skb) (ret : Ret) (stop : Bool) :
    Ready dev (answered dev g skb ret stop).2 := by
  unfold answered
  simp only
  split
  · unfold taken
    split
    · exact leave_ready _
    · exact leave_ready _
    · exact List.cons_ne_nil _ _
  · exact refused_ready _ _

theorem step_ready (hready : Ready dev pc) (hs : step dev g pc a = some (g', pc')) :
    Ready dev pc' := by
  cases pc with
  | check skb =>
      cases hs
      split
      · exact leave_ready _
      · trivial
  | xmit skb =>
      have hall := segment_ready dev g skb
      rw [show segment dev g skb = (g', pc') from Option.some.inj hs] at hall
      exact hall
  | call skb =>
      cases a with
      | driver ret stop =>
          have hall := answered_ready dev g skb ret stop
          rw [show answered dev g skb ret stop = (g', pc') from Option.some.inj hs] at hall
          exact hall
      | _ => cases hs
  | stopTest skb =>
      cases hs
      split
      · exact refused_ready _ _
      · intro hnil
        exact absurd hnil hready
  | idle | holdBody => exact ready_of_runs (step_outside rfl hs).runs
  | relock r =>
      simp only [step] at hs
      split at hs <;> cases hs
      cases r <;> trivial
  | run | claim | loopTest =>
      cases hs
      split <;> trivial
  | restart =>
      simp only [step] at hs
      split at hs <;> cases hs
      · trivial
      · split
        · trivial
        · rename_i hlltx
          exact Bool.eq_false_iff.mpr hlltx
  | trylock skb =>
      simp only [step] at hs
      split at hs <;> cases hs
      · trivial
      · exact hready
  | schedule k | schedSet k =>
      cases hs
      split <;> cases k <;> trivial
  | schedList k =>
      cases hs
      cases k <;> trivial
  | _ =>
      simp only [step] at hs
      (try split at hs) <;> cases hs <;> trivial

/-- What a step does to the packets. -/
inductive Moves (dev : NetDevice) (g : Shared) (pc : Pc) (g' : Shared) (pc' : Pc) : Prop
  | same (hbacklog : g'.backlog = g.backlog) (hhand : pc'.hand = pc.hand)
  | enqueue (skb : Skb) (hbacklog : g'.backlog = g.backlog.enqueue dev skb)
      (hhand : pc'.hand = pc.hand)
  | take (skb : Skb) (hruns : runs pc = 1) (hhand : pc.hand = [])
      (htake : g.backlog.take = some (skb, g'.backlog)) (hruns' : runs pc' = 1)
      (hhand' : pc'.hand = [skb])
  | cut (skb skb' : Skb) (hruns : runs pc = 1) (hhand : pc.hand = [skb])
      (hbacklog : g'.backlog = g.backlog) (hcontents : contents dev skb' = contents dev skb)
      (hband : skb'.band = skb.band) (hruns' : runs pc' = 1) (hhand' : pc'.hand = [skb'])
  | finish (skb : Skb) (fs : List Nat) (fate : Fate) (hruns : runs pc = 1)
      (hhand : pc.hand = [skb]) (hbacklog : g'.backlog = g.backlog.finish skb fs fate)
      (hone : pc'.hand.length ≤ 1) (hband : ∀ x ∈ pc'.hand, x.band = skb.band)
      (hcontents : contents dev skb = fs ++ pc'.hand.flatMap (contents dev))
      (hruns' : runs pc' = 1)
      (hfate : fate = .deadLoop → pc = .collision skb ∧ g.owner = true)
  | requeue (skb : Skb) (hruns : runs pc = 1) (hhand : pc.hand = [skb])
      (hbacklog : g'.backlog = g.backlog.requeue skb) (hruns' : runs pc' = 1)
      (hhand' : pc'.hand = [])

/-- The last frame of a packet is done with. -/
theorem Moves.last {skb : Skb} {fs : List Nat} {fate : Fate} (hruns : runs pc = 1)
    (hhand : pc.hand = [skb]) (hbacklog : g'.backlog = g.backlog.finish skb fs fate)
    (hcontents : contents dev skb = fs) (hruns' : runs pc' = 1) (hhand' : pc'.hand = [])
    (hfate : fate = .deadLoop → pc = .collision skb ∧ g.owner = true) :
    Moves dev g pc g' pc' := by
  refine .finish skb fs fate hruns hhand hbacklog ?_ ?_ ?_ hruns' hfate
  · rw [hhand']
    exact Nat.zero_le 1
  · rw [hhand']
    intro x hx
    cases hx
  · rw [hhand', hcontents, List.flatMap_nil, List.append_nil]

theorem segment_moves (dev : NetDevice) (g : Shared) (skb : Skb) :
    Moves dev g (.xmit skb) (segment dev g skb).1 (segment dev g skb).2 := by
  unfold segment
  split
  · rename_i hcut
    split
    · rename_i hnone
      exact .last rfl rfl rfl (contents_uncut hcut.1 (fun _ => .inl hnone))
        (places_of_sends (leave_sends _).1).1 (leave_sends _).2 nofun
    · rename_i segs hsegs
      exact .cut skb _ rfl rfl rfl (contents_cut hcut.1 hcut.2 hsegs) rfl rfl rfl
  · exact .same rfl rfl

theorem answered_moves {skb : Skb} (hready : Ready dev (.call skb)) (ret : Ret) (stop : Bool) :
    Moves dev g (.call skb) (answered dev g skb ret stop).1 (answered dev g skb ret stop).2 := by
  unfold answered
  simp only
  split
  · unfold taken
    split
    · rename_i hnext
      exact .last rfl rfl rfl (hready hnext) (places_of_sends (leave_sends _).1).1
        (leave_sends _).2 nofun
    · rename_i f hnext
      have hcontents : contents dev skb = [f] := by
        simp only [contents, hnext]
      exact .last rfl rfl rfl hcontents (places_of_sends (leave_sends _).1).1 (leave_sends _).2
        nofun
    · rename_i f f' fs hnext
      refine .finish skb [f] .sent rfl rfl rfl (Nat.le_refl 1) ?_ ?_ rfl nofun
      · intro x hx
        rw [List.mem_singleton.mp hx]
        rfl
      · simp only [Pc.hand, List.flatMap_cons, List.flatMap_nil, List.append_nil, contents, hnext,
          List.singleton_append]
  · exact .same rfl (refused_sends _ _).2

theorem step_moves (hready : Ready dev pc) (hs : step dev g pc a = some (g', pc')) :
    Moves dev g pc g' pc' := by
  cases pc with
  | check skb =>
      cases hs
      split
      · exact .same rfl (leave_sends _).2
      · exact .same rfl rfl
  | xmit skb =>
      have hall := segment_moves dev g skb
      rw [show segment dev g skb = (g', pc') from Option.some.inj hs] at hall
      exact hall
  | call skb =>
      cases a with
      | driver ret stop =>
          have hall := answered_moves (g := g) hready ret stop
          rw [show answered dev g skb ret stop = (g', pc') from Option.some.inj hs] at hall
          exact hall
      | _ => cases hs
  | stopTest skb =>
      cases hs
      split
      · exact .same rfl (refused_sends _ _).2
      · exact .same rfl rfl
  | enqueue skb =>
      cases hs
      exact .enqueue skb rfl rfl
  | restart =>
      simp only [step] at hs
      split at hs <;> cases hs
      · exact .same rfl rfl
      · rename_i skb backlog htake
        split
        · exact .take skb rfl rfl htake rfl rfl
        · exact .take skb rfl rfl htake rfl rfl
  | collision skb =>
      simp only [step] at hs
      split at hs <;> cases hs
      · rename_i howner
        exact .last rfl rfl rfl rfl rfl rfl (fun _ => ⟨rfl, howner⟩)
      · exact .same rfl rfl
  | requeue skb =>
      cases hs
      exact .requeue skb rfl rfl rfl rfl rfl
  | idle | holdBody =>
      have houtside := step_outside rfl hs
      exact .same houtside.backlog (hand_nil houtside.runs)
  | relock r =>
      simp only [step] at hs
      split at hs <;> cases hs
      cases r <;> exact .same rfl rfl
  | run | claim | loopTest =>
      cases hs
      split <;> exact .same rfl rfl
  | schedule k | schedSet k =>
      cases hs
      split <;> cases k <;> exact .same rfl rfl
  | schedList k =>
      cases hs
      cases k <;> exact .same rfl rfl
  | _ =>
      simp only [step] at hs
      (try split at hs) <;> cases hs <;> exact .same rfl rfl

end

/-! ## All runs -/

section
variable {dev : NetDevice} {ok : Conf Shared Pc → Nat × Choice → Prop} {c : Conf Shared Pc}

theorem total_start {w : Pc → Nat} (hw : w .idle = 0) (hc : (machine dev).init c) :
    total w c.pool = 0 := by
  apply total_eq_zero
  intro pc hpc
  rw [hc.2 pc hpc]
  exact hw

theorem locks_total (h : (machine dev).Reach ok c) :
    total locks c.pool = if c.shared.queueLock then 1 else 0 :=
  Prog.flag (P := prog dev) locks Shared.queueLock
    (fun _ hc => ⟨hc.1.queueLock, total_start rfl hc⟩) (fun _ _ _ _ _ _ hs => (step_toggles hs).1) h

theorem runs_total (h : (machine dev).Reach ok c) :
    total runs c.pool = if c.shared.running then 1 else 0 :=
  Prog.flag (P := prog dev) runs Shared.running (fun _ hc => ⟨hc.1.running, total_start rfl hc⟩)
    (fun _ _ _ _ _ _ hs => (step_toggles hs).2) h

theorem runs_le (h : (machine dev).Reach ok c) : total runs c.pool ≤ 1 := by
  rw [runs_total h]
  split <;> omega

theorem hands_only (h : (machine dev).Reach ok c) {i : Nat} {pc : Pc}
    (hi : c.pool[i]? = some pc) (hruns : runs pc = 1) : c.pool.flatMap Pc.hand = pc.hand :=
  flatMap_only (fun _ => hand_nil) (runs_le h) hi (by omega)

/-- The device is on the output queue, or somebody is about to put it there or has just taken it,
exactly while `__LINK_STATE_SCHED` is set. -/
theorem lists_total (h : (machine dev).Reach ok c) :
    total lists c.pool + c.shared.listed.toNat = c.shared.sched.toNat := by
  refine Prog.balance lists (fun g n => n + g.listed.toNat = g.sched.toNat) ?_ ?_ h
  · intro c hc
    rw [total_start rfl hc, hc.1.listed, hc.1.sched]
    rfl
  · intro c i a pc g pc' r _ _ _ _ hs hold
    have hsched : c.shared.sched.toNat ≤ 1 := Bool.toNat_le _
    cases step_lists hs with
    | same hs' hl hn => rw [hs', hl, hn, hold]
    | set hfree hs' hl hn =>
        rw [hfree] at hold
        simp only [Bool.toNat_false] at hold
        rw [hs', hl, hn, Bool.toNat_true]
        omega
    | list hs' hl hn =>
        rw [hs', hl, Bool.toNat_true]
        omega
    | take hs' hl hl' hn =>
        rw [hl, Bool.toNat_true] at hold
        rw [hs', hl', hn, Bool.toNat_false]
        omega
    | clear hs' hl hn =>
        rw [hs', hl, Bool.toNat_false]
        omega

/-- The packets that wait are somebody's business. -/
theorem kicked (h : (machine dev).Reach ok c) :
    c.shared.backlog.Idle ∨ c.shared.xoff = true ∨ c.shared.sched = true ∨
      ∃ (i : Nat) (pc : Pc), c.pool[i]? = some pc ∧ pc.kicks = true := by
  induction h with
  | init hc =>
      refine .inl ?_
      rw [hc.1.backlog]
      exact ⟨rfl, fun _ => rfl⟩
  | @step c c' ia hreach _ hstep ih =>
      obtain ⟨pc, g, pc', hpc, hs, rfl⟩ := Prog.machine_step hstep
      have hlt := (List.getElem?_eq_some_iff.mp hpc).1
      have hstays : ∀ {j : Nat} {q : Pc}, j ≠ ia.1 → c.pool[j]? = some q →
          (c.pool.set ia.1 pc')[j]? = some q := by
        intro j q hj hq
        rw [List.getElem?_set_ne (Ne.symm hj)]
        exact hq
      cases step_kicks hs with
      | thread hk => exact .inr (.inr (.inr ⟨ia.1, pc', List.getElem?_set_self hlt, hk⟩))
      | driver hx => exact .inr (.inl hx)
      | softirq hsched => exact .inr (.inr (.inl hsched))
      | idle hidle => exact .inl hidle
      | runner hclaim hrunning =>
          -- the one who runs the queue does not have the lock, so it comes back to the loop
          subst hclaim
          have hruns := runs_total hreach
          rw [hrunning, if_pos rfl] at hruns
          have hsome : 0 < total runs c.pool := by omega
          obtain ⟨j, q, hq, hpos⟩ := exists_of_total_pos hsome
          have hj : j ≠ ia.1 := by
            rintro rfl
            cases hpc.symm.trans hq
            exact absurd hpos (Nat.lt_irrefl 0)
          have hlocks : locks Pc.claim + locks q ≤ 1 := by
            have hle := add_le_total locks (Ne.symm hj) hpc hq
            rw [locks_total hreach] at hle
            split at hle <;> omega
          have hone : locks Pc.claim = 1 := rfl
          have hle := le_total runs hq
          have hsends : q.sends = true := sends_of_runs (by omega) (by omega)
          exact .inr (.inr (.inr ⟨j, q, hstays hj hq, (places_of_sends hsends).2.2.1⟩))
      | other hpcs hbacklog hxoff hsched =>
          rcases ih with hidle | hx | hsd | ⟨j, q, hq, hk⟩
          · exact .inl (hbacklog ▸ hidle)
          · exact .inr (.inl (hxoff hx))
          · exact .inr (.inr (.inl (hsched hsd)))
          · have hj : j ≠ ia.1 := by
              rintro rfl
              cases hpc.symm.trans hq
              cases hpcs.symm.trans hk
            exact .inr (.inr (.inr ⟨j, q, hstays hj hq, hk⟩))

theorem ready (h : (machine dev).Reach ok c) {i : Nat} {pc : Pc} (hi : c.pool[i]? = some pc) :
    Ready dev pc :=
  Prog.each (Ready dev) (fun pc hpc => by rw [show pc = .idle from hpc]; trivial)
    (fun _ _ _ _ _ _ hready hs => step_ready hready hs) h hi

theorem backlog_ok (h : (machine dev).Reach ok c) :
    c.shared.backlog.Ok dev (c.pool.flatMap Pc.hand) := by
  induction h with
  | @init c hc =>
      have hnone : c.pool.flatMap Pc.hand = [] :=
        flatMap_none (w := runs) (fun _ => hand_nil) (total_start rfl hc)
      rw [hnone, hc.1.backlog]
      exact Backlog.empty_ok
  | @step c c' ia hreach hok hstep ih =>
      have hreach' := Machine.Reach.step ia hreach hok hstep
      obtain ⟨pc, g, pc', hpc, hs, rfl⟩ := Prog.machine_step hstep
      have hpc' : (c.pool.set ia.1 pc')[ia.1]? = some pc' :=
        List.getElem?_set_self (List.getElem?_eq_some_iff.mp hpc).1
      show g.backlog.Ok dev ((c.pool.set ia.1 pc').flatMap Pc.hand)
      cases step_moves (ready hreach hpc) hs with
      | same hbacklog hhand =>
          rw [flatMap_set hpc hhand, hbacklog]
          exact ih
      | enqueue skb hbacklog hhand =>
          rw [flatMap_set hpc hhand, hbacklog]
          exact Backlog.enqueue_ok ih skb
      | take skb hruns hhand htake hruns' hhand' =>
          rw [hands_only hreach hpc hruns, hhand] at ih
          rw [hands_only hreach' hpc' hruns', hhand']
          exact Backlog.take_ok ih htake
      | cut skb skb' hruns hhand hbacklog hcontents hband hruns' hhand' =>
          rw [hands_only hreach hpc hruns, hhand] at ih
          rw [hands_only hreach' hpc' hruns', hhand', hbacklog]
          exact ih.cut hcontents hband
      | finish skb fs fate hruns hhand hbacklog hone hband hcontents hruns' _ =>
          rw [hands_only hreach hpc hruns, hhand] at ih
          rw [hands_only hreach' hpc' hruns', hbacklog]
          exact Backlog.finish_ok ih fate hone hband hcontents
      | requeue skb hruns hhand hbacklog hruns' hhand' =>
          rw [hands_only hreach hpc hruns, hhand] at ih
          rw [hands_only hreach' hpc' hruns', hhand', hbacklog]
          exact Backlog.requeue_ok ih

end

/-- What holds in every state of every run: see the head of the file. -/
theorem qdisc_keeps_packets (dev : NetDevice) (c : Conf Shared Pc) (h : (machine dev).Reachable c) :
    c.shared.backlog.Ok dev (c.pool.flatMap Pc.hand) ∧
      (∀ (i j : Nat) (skb skb' : Skb), c.pool[i]? = some (.call skb) →
        c.pool[j]? = some (.call skb') → i = j) ∧
      (c.shared.backlog.Idle ∨ c.shared.xoff = true ∨ c.shared.listed = true ∨
        ∃ (i : Nat) (pc : Pc), c.pool[i]? = some pc ∧ (pc.kicks = true ∨ 0 < lists pc)) := by
  refine ⟨backlog_ok h, ?_, ?_⟩
  · intro i j skb skb' hi hj
    exact unique_of_total_le_one (runs_le h) hi hj Nat.one_pos Nat.one_pos
  · rcases kicked h with hidle | hxoff | hsched | ⟨i, pc, hi, hk⟩
    · exact .inl hidle
    · exact .inr (.inl hxoff)
    · have htotal := lists_total h
      rw [hsched, Bool.toNat_true] at htotal
      cases hl : c.shared.listed with
      | true => exact .inr (.inr (.inl rfl))
      | false =>
          rw [hl, Bool.toNat_false] at htotal
          have hsome : 0 < total lists c.pool := by omega
          obtain ⟨i, pc, hi, hpos⟩ := exists_of_total_pos hsome
          exact .inr (.inr (.inr ⟨i, pc, hi, .inr hpos⟩))
    · exact .inr (.inr (.inr ⟨i, pc, hi, .inl hk⟩))

/-- A device as it is after `dev_activate`. -/
def fresh : Shared := ⟨false, false, false, false, false, false, false, .empty⟩

theorem fresh_start : Start fresh := ⟨rfl, rfl, rfl, rfl, rfl, rfl, rfl⟩

section

/-- The packet 10 has the frames 11 and 12. -/
private def demo : NetDevice := ⟨false, 2, fun f => f == 10, fun _ => some [11, 12]⟩

private def goes (i n : Nat) : List (Nat × Choice) := List.replicate n (i, .go)

/-- From `restart` back to `restart`, with one frame. -/
private def sendOne : List (Nat × Choice) :=
  goes 2 6 ++ [(2, Choice.driver .ok false)] ++ goes 2 4

private def script : List (Nat × Choice) :=
  [(0, Choice.devQueueXmit ⟨0, 10, []⟩)] ++ goes 0 10 ++ [(0, Choice.driver .ok true)] ++
    goes 0 1 ++ [(1, Choice.devQueueXmit ⟨0, 20, []⟩)] ++ goes 1 4 ++ goes 0 7 ++
    [(2, Choice.netifWakeQueue)] ++ goes 2 2 ++ [(2, Choice.netTxAction)] ++ goes 2 4 ++
    sendOne ++ sendOne ++ goes 2 3

/-- The driver takes one frame of the first packet and stops the queue.  Another thread enters a
packet, the driver wakes the queue, and the softirq sends what is left. -/
theorem qdisc_keeps_packets_stopped :
    ∃ c, (machine demo).Reachable c ∧
      c.shared.backlog.log 1 = [(11, .sent), (12, .sent), (20, .sent)] ∧
      c.shared.backlog.accepted 1 = [11, 12, 20] := by
  have hrun : ((machine demo).run ⟨fresh, [.idle, .idle, .idle]⟩ script).map
      (fun c => (c.pool, c.shared.backlog.log 1, c.shared.backlog.gsoSkb,
        c.shared.backlog.q.list 1)) =
      some ([.idle, .idle, .idle], [(11, .sent), (12, .sent), (20, .sent)], none, []) := by
    decide +kernel
  obtain ⟨c, hc, hat⟩ := Option.map_eq_some_iff.mp hrun
  simp only [Prod.mk.injEq] at hat
  obtain ⟨hpool, hlog, hgso, hlist⟩ := hat
  have hinit : (machine demo).init ⟨fresh, [.idle, .idle, .idle]⟩ :=
    ⟨fresh_start, by simp [prog]⟩
  have hreach := Machine.Reachable.run (.init hinit) _ hc
  have horder := (qdisc_keeps_packets demo c hreach).1.order 1
  rw [hpool, hlog, hgso, hlist] at horder
  exact ⟨c, hreach, hlog, horder.trans rfl⟩

end

/-! ## Dead loops -/

/-- A thread that has entered itself as the owner of the driver's lock. -/
def owns (dev : NetDevice) : Pc → Nat
  | .release _ | .check _ | .xmit _ | .call _ | .stopTest _ | .disown _ => if dev.lltx then 0 else 1
  | .holdBody | .holdDisown | .schedule .holder | .schedSet .holder
  | .schedList .holder => 1
  | _ => 0

/-- A thread that takes the lock of the driver for something else than a packet. -/
def Pc.holding : Pc → Bool
  | .holdLock | .holdOwn | .holdBody | .holdDisown | .holdUnlock | .schedule .holder
  | .schedSet .holder | .schedList .holder => true
  | _ => false

section
variable {dev : NetDevice} {g g' : Shared} {pc pc' : Pc} {a : Choice}

theorem owns_leave (r : After) : owns dev (leave dev r) = if dev.lltx then 0 else 1 := by
  unfold leave
  split
  · rfl
  · rename_i hlltx
    simp [owns, hlltx]

theorem owns_refused (ret : Ret) (skb : Skb) :
    owns dev (refused dev ret skb) = if dev.lltx then 0 else 1 := by
  unfold refused
  split
  · rename_i hlocked
    rw [hlocked.2]
    rfl
  · exact owns_leave _

theorem owns_segment (dev : NetDevice) (g : Shared) (skb : Skb) :
    owns dev (segment dev g skb).2 = if dev.lltx then 0 else 1 := by
  unfold segment
  split
  · split
    · exact owns_leave _
    · rfl
  · rfl

theorem owns_answered (dev : NetDevice) (g : Shared) (skb : Skb) (ret : Ret) (stop : Bool) :
    owns dev (answered dev g skb ret stop).2 = if dev.lltx then 0 else 1 := by
  unfold answered
  simp only
  split
  · unfold taken
    split
    · exact owns_leave _
    · exact owns_leave _
    · rfl
  · exact owns_refused _ _

/-- The mark of the owner is set by the one who has the lock, and cleared before it is released. -/
theorem step_owns (hready : Ready dev pc) (hs : step dev g pc a = some (g', pc')) :
    (g'.owner = g.owner ∧ owns dev pc' = owns dev pc) ∨ owns dev pc' = 1 ∨ g'.owner = false := by
  have hdriving : pc.driving = true → g'.owner = g.owner := by
    intro hpc
    exact (step_driving hpc hs).1.owner
  cases pc with
  | check skb =>
      refine .inl ⟨hdriving rfl, ?_⟩
      cases hs
      split
      · exact owns_leave _
      · rfl
  | xmit skb =>
      refine .inl ⟨hdriving rfl, ?_⟩
      have hall := owns_segment dev g skb
      rw [show segment dev g skb = (g', pc') from Option.some.inj hs] at hall
      exact hall
  | call skb =>
      refine .inl ⟨hdriving rfl, ?_⟩
      cases a with
      | driver ret stop =>
          have hall := owns_answered dev g skb ret stop
          rw [show answered dev g skb ret stop = (g', pc') from Option.some.inj hs] at hall
          exact hall
      | _ => cases hs
  | stopTest skb =>
      refine .inl ⟨hdriving rfl, ?_⟩
      cases hs
      split
      · exact owns_refused _ _
      · rfl
  | own skb =>
      cases hs
      refine .inr (.inl ?_)
      rw [owns, show dev.lltx = false from hready]
      rfl
  | holdOwn =>
      cases hs
      exact .inr (.inl rfl)
  | disown | holdDisown =>
      cases hs
      exact .inr (.inr rfl)
  | release skb =>
      cases hs
      exact .inl ⟨rfl, rfl⟩
  | restart =>
      simp only [step] at hs
      split at hs <;> cases hs
      · exact .inl ⟨rfl, rfl⟩
      · split
        · rename_i hlltx
          refine .inl ⟨rfl, ?_⟩
          rw [owns, hlltx]
          rfl
        · exact .inl ⟨rfl, rfl⟩
  | idle =>
      cases a with
      | netTxAction =>
          simp only [step] at hs
          split at hs <;> cases hs
          exact .inl ⟨rfl, rfl⟩
      | netifWakeQueue =>
          cases hs
          split <;> exact .inl ⟨rfl, rfl⟩
      | devQueueXmit | netifStopQueue | netifTxLock =>
          cases hs
          exact .inl ⟨rfl, rfl⟩
      | _ => cases hs
  | relock r =>
      simp only [step] at hs
      split at hs <;> cases hs
      cases r <;> exact .inl ⟨rfl, rfl⟩
  | run | claim | loopTest =>
      cases hs
      split <;> exact .inl ⟨rfl, rfl⟩
  | schedule k | schedSet k =>
      cases hs
      split <;> cases k <;> exact .inl ⟨rfl, rfl⟩
  | schedList k =>
      cases hs
      cases k <;> exact .inl ⟨rfl, rfl⟩
  | holdBody =>
      cases a with
      | netifWakeQueue =>
          cases hs
          split <;> exact .inl ⟨rfl, rfl⟩
      | go | netifStopQueue =>
          cases hs
          exact .inl ⟨rfl, rfl⟩
      | _ => cases hs
  | _ =>
      simp only [step] at hs
      (try split at hs) <;> cases hs <;> exact .inl ⟨rfl, rfl⟩

theorem holding_of_sends (h : pc.sends = true) : pc.holding = false := by
  cases pc with
  | _ => first | rfl | cases h

/-- Only a call of `netif_tx_lock` makes a thread one of these. -/
theorem step_holding (ha : a ≠ .netifTxLock) (hpc : pc.holding = false)
    (hs : step dev g pc a = some (g', pc')) : pc'.holding = false := by
  have hdriving : pc.driving = true → pc'.holding = false := by
    intro hdrives
    exact holding_of_sends (step_driving hdrives hs).2
  cases pc with
  | check | xmit | call | stopTest => exact hdriving rfl
  | idle =>
      cases a with
      | netifTxLock => exact absurd rfl ha
      | netTxAction =>
          simp only [step] at hs
          split at hs <;> cases hs
          rfl
      | netifWakeQueue =>
          cases hs
          split <;> rfl
      | devQueueXmit | netifStopQueue =>
          cases hs
          rfl
      | _ => cases hs
  | relock r =>
      simp only [step] at hs
      split at hs <;> cases hs
      cases r <;> rfl
  | run | claim | loopTest =>
      cases hs
      split <;> rfl
  | restart =>
      simp only [step] at hs
      split at hs <;> cases hs
      · rfl
      · split <;> rfl
  | schedule k | schedSet k =>
      cases hs
      cases k with
      | holder => cases hpc
      | _ => split <;> rfl
  | schedList k =>
      cases hs
      cases k with
      | holder => cases hpc
      | _ => rfl
  | holdLock | holdOwn | holdBody | holdDisown | holdUnlock => cases hpc
  | _ =>
      simp only [step] at hs
      (try split at hs) <;> cases hs <;> rfl

theorem runs_of_owns (howns : 0 < owns dev pc) (hpc : pc.holding = false) :
    runs pc = 1 ∧ pc.sends = true ∨ ∃ skb, pc = .release skb := by
  cases pc with
  | release skb => exact .inr ⟨skb, rfl⟩
  | schedule k | schedSet k | schedList k =>
      cases k with
      | holder => cases hpc
      | _ => exact absurd howns (Nat.lt_irrefl 0)
  | _ => first | exact .inl ⟨rfl, rfl⟩ | exact absurd howns (Nat.lt_irrefl 0) | cases hpc

end

/-- Nothing but `qdisc_restart` takes the lock of the driver. -/
def NoHolder (_ : Conf Shared Pc) (ia : Nat × Choice) : Prop := ia.2 ≠ .netifTxLock

section
variable {dev : NetDevice} {c : Conf Shared Pc}

theorem owner_owns {ok : Conf Shared Pc → Nat × Choice → Prop} (h : (machine dev).Reach ok c) :
    c.shared.owner = true → 0 < total (owns dev) c.pool := by
  refine Prog.balance (owns dev) (fun g n => g.owner = true → 0 < n) ?_ ?_ h
  · intro c hc howner
    cases hc.1.owner.symm.trans howner
  · intro c i a pc g pc' r hreach _ hpc _ hs hold howner
    rcases step_owns (ready hreach hpc) hs with ⟨hsame, hw⟩ | hw | hclear
    · rw [hw]
      exact hold (hsame ▸ howner)
    · omega
    · cases hclear.symm.trans howner

theorem not_holding (h : (machine dev).Reach NoHolder c) {i : Nat} {pc : Pc}
    (hi : c.pool[i]? = some pc) : pc.holding = false := by
  refine Prog.thread (fun _ _ pc => pc.holding = false) ?_ ?_ ?_ h i pc hi
  · intro c i pc hc hpc
    rw [hc.2 pc (List.mem_of_getElem? hpc)]
    rfl
  · intro c i a pc g pc' _ ha _ hs hold
    exact step_holding ha hold hs
  · intro c i j a pc q g q' _ _ _ _ _ _ hold
    exact hold

/-- Then nobody owns the driver's lock while another thread finds it taken. -/
theorem owner_clear (h : (machine dev).Reach NoHolder c) {i : Nat} {skb : Skb}
    (hi : c.pool[i]? = some (.collision skb)) : c.shared.owner = false := by
  by_contra howner
  obtain ⟨j, pc, hj, howns⟩ :=
    exists_of_total_pos (owner_owns h (Bool.eq_true_of_not_eq_false howner))
  have hruns : 0 < runs pc := by
    rcases runs_of_owns howns (not_holding h hj) with ⟨hruns, -⟩ | ⟨skb', rfl⟩
    · omega
    · exact Nat.one_pos
  have hij : i = j := unique_of_total_le_one (runs_le h) hi hj Nat.one_pos hruns
  subst hij
  cases hi.symm.trans hj
  exact absurd howns (Nat.lt_irrefl 0)

end

/-- As long as no other function takes the lock, no frame is dropped for a dead loop. -/
theorem no_dead_loop (dev : NetDevice) (c : Conf Shared Pc)
    (h : (machine dev).Reach NoHolder c) (b : Fin 3) :
    ∀ x ∈ c.shared.backlog.log b, x.2 ≠ .deadLoop := by
  induction h with
  | init hc =>
      intro x hx
      rw [hc.1.backlog] at hx
      cases hx
  | @step c c' ia hreach hok hstep ih =>
      obtain ⟨pc, g, pc', hpc, hs, rfl⟩ := Prog.machine_step hstep
      show ∀ x ∈ g.backlog.log b, x.2 ≠ .deadLoop
      have hlog : g.backlog.log b = c.shared.backlog.log b ∨
          ∃ (fs : List Nat) (fate : Fate), fate ≠ .deadLoop ∧
            g.backlog.log b = c.shared.backlog.log b ++ fs.map (·, fate) := by
        cases step_moves (ready hreach hpc) hs with
        | same hbacklog => exact .inl (by rw [hbacklog])
        | enqueue skb hbacklog => exact .inl (by rw [hbacklog, Backlog.enqueue_log])
        | take skb _ _ htake => exact .inl (by rw [Backlog.take_log htake])
        | cut _ _ _ _ hbacklog => exact .inl (by rw [hbacklog])
        | requeue skb _ _ hbacklog => exact .inl (by rw [hbacklog, Backlog.requeue_log])
        | finish skb fs fate _ _ hbacklog _ _ _ _ hfate =>
            have hne : fate ≠ .deadLoop := by
              intro hdead
              obtain ⟨rfl, howner⟩ := hfate hdead
              cases (owner_clear hreach hpc).symm.trans howner
            rw [hbacklog]
            by_cases hb : b = skb.band
            · subst hb
              exact .inr ⟨fs, fate, hne, Function.update_self _ _ _⟩
            · exact .inl (Function.update_of_ne hb _ _)
      rcases hlog with hsame | ⟨fs, fate, hne, hmore⟩
      · rw [hsame]
        exact ih
      · rw [hmore]
        intro x hx
        rcases List.mem_append.mp hx with hold | hnew
        · exact ih x hold
        · obtain ⟨f, -, rfl⟩ := List.mem_map.mp hnew
          exact hne

private def collide (skb : Skb) : List (Nat × Choice) :=
  [(1, .netifTxLock), (1, .go), (1, .go), (0, .devQueueXmit skb), (0, .go), (0, .go), (0, .go),
    (0, .go), (0, .go), (0, .go), (0, .go)]

/-- Somebody takes the lock, and a packet on its way to an idle device is dropped. -/
theorem holder_drops_packet (dev : NetDevice) (hlltx : dev.lltx = false)
    (hroom : 0 < dev.txQueueLen) (skb : Skb) :
    ∃ c, (machine dev).Reachable c ∧ c.pool = [.loopTest, .holdBody] ∧
      c.shared.backlog.log skb.band = (contents dev skb).map (·, .deadLoop) := by
  have hinit : (machine dev).init ⟨fresh, [.idle, .idle]⟩ := ⟨fresh_start, by simp [prog]⟩
  have hrun : ∃ c, (machine dev).run ⟨fresh, [.idle, .idle]⟩ (collide skb) = some c ∧
      c.pool = [.loopTest, .holdBody] ∧
      c.shared.backlog.log skb.band = (contents dev skb).map (·, .deadLoop) := by
    obtain ⟨d, htake, hlog⟩ := Backlog.take_first hroom skb
    refine ⟨⟨{ fresh with
        queueLock := true, txLock := true, owner := true, running := true,
        backlog := d.finish skb (contents dev skb) .deadLoop }, [.loopTest, .holdBody]⟩, ?_, rfl,
      ?_⟩
    · simp [collide, Machine.run, machine, Prog.machine, prog, step, fresh, htake, hlltx]
    · simp [Backlog.finish, hlog]
  obtain ⟨c, hc, hpool, hlog⟩ := hrun
  exact ⟨c, Machine.Reachable.run (.init hinit) _ hc, hpool, hlog⟩

/-- What `qdisc_restart` takes for a dead loop is another function that has the lock. -/
theorem dead_loop_is_contention (dev : NetDevice) :
    (∀ c, (machine dev).Reach NoHolder c → ∀ b, ∀ x ∈ c.shared.backlog.log b,
      x.2 ≠ .deadLoop) ∧
    (dev.lltx = false → 0 < dev.txQueueLen → ∀ skb, ∃ c, (machine dev).Reachable c ∧
      c.pool = [.loopTest, .holdBody] ∧
      c.shared.backlog.log skb.band = (contents dev skb).map (·, .deadLoop)) :=
  ⟨no_dead_loop dev, holder_drops_packet dev⟩

theorem dead_loop_is_contention_one :
    ∃ c, (machine ⟨false, 1, fun _ => false, fun _ => none⟩).Reachable c ∧
      c.pool = [.loopTest, .holdBody] ∧ c.shared.backlog.log 1 = [(20, .deadLoop)] :=
  (dead_loop_is_contention ⟨false, 1, fun _ => false, fun _ => none⟩).2 rfl Nat.one_pos ⟨0, 20, []⟩

end LinuxDrivers.Net.Xmit
