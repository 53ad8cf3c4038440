import GoodbyeDpi.System

/-!
# The life of a netfilter context (`src/capture/netfilter_capture.c`)

`netfilter_init`, `netfilter_receive_packet`, `netfilter_send_verdict` and `netfilter_cleanup` on one context, in any
order and whatever the library answers.  No call goes to a handle or a queue that is not open, and what is open at the
end is what the context has, what was lost by initializing a context a second time, and what the library has refused to
close.
-/

namespace GoodbyeDpi

open CSem

/-- `netfilter_context_t`. -/
structure NetfilterContext where
  nfqHandle : Int
  queueHandle : Int
  fd : Int
  queueNum : UInt16
  initialized : Bool
  bufferLen : Int
deriving DecidableEq, Repr

/-- `memset(ctx, 0, sizeof(netfilter_context_t))`. -/
def NetfilterContext.zero : NetfilterContext := ⟨0, 0, 0, 0, false, 0⟩

namespace OnSystem

/-- A failure in `netfilter_init` once the handle is open. -/
def nfqCloseFail (ctx : NetfilterContext) : Sys (Int × NetfilterContext) := do
  let _ ← Proc.ask (.nfqClose ctx.nfqHandle)
  pure (-1, ctx)

/-- A failure in `netfilter_init` once the queue is there. -/
def nfqDestroyFail (ctx : NetfilterContext) : Sys (Int × NetfilterContext) := do
  let _ ← Proc.ask (.nfqDestroyQueue ctx.queueHandle)
  nfqCloseFail ctx

/-- `netfilter_init`: its result and the context. -/
def netfilterInit (queueNum : UInt16) : Sys (Int × NetfilterContext) := do
  let ctx := { NetfilterContext.zero with queueNum }
  let h ← Proc.ask .nfqOpen
  let ctx := { ctx with nfqHandle := h }
  if h = 0 then pure (-1, ctx)
  else if (← Proc.ask (.nfqUnbindPf h .inet)) < 0 then nfqCloseFail ctx
  else if (← Proc.ask (.nfqUnbindPf h .inet6)) < 0 then nfqCloseFail ctx
  else if (← Proc.ask (.nfqBindPf h .inet)) < 0 then nfqCloseFail ctx
  else if (← Proc.ask (.nfqBindPf h .inet6)) < 0 then nfqCloseFail ctx
  else
    let qh ← Proc.ask (.nfqCreateQueue h queueNum)
    let ctx := { ctx with queueHandle := qh }
    if qh = 0 then nfqCloseFail ctx
    else if (← Proc.ask (.nfqSetMode qh)) < 0 then nfqDestroyFail ctx
    else
      let fd ← Proc.ask (.nfqFd h)
      let ctx := { ctx with fd }
      if fd < 0 then nfqDestroyFail ctx else pure (0, { ctx with initialized := true })

/-- `netfilter_cleanup`. -/
def netfilterCleanup (ctx : NetfilterContext) : Sys (Int × NetfilterContext) := do
  if !ctx.initialized then pure (-1, ctx)
  else
    if ctx.queueHandle ≠ 0 then
      let _ ← Proc.ask (.nfqDestroyQueue ctx.queueHandle)
    if ctx.nfqHandle ≠ 0 then
      let _ ← Proc.ask (.nfqClose ctx.nfqHandle)
    pure (0, { ctx with initialized := false })

/-- `netfilter_receive_packet`. -/
def netfilterReceivePacket (ctx : NetfilterContext) : Sys (Int × NetfilterContext) := do
  if !ctx.initialized then pure (-1, ctx)
  else
    let len ← Proc.ask (.recv ctx.fd)
    if len < 0 then
      if (← Proc.ask .wouldBlock) ≠ 0 then pure (0, ctx) else pure (-1, ctx)
    else
      let ctx := { ctx with bufferLen := len }
      if (← Proc.ask (.nfqHandlePacket ctx.nfqHandle len)) < 0 then pure (-1, ctx) else pure (len, ctx)

/-- `netfilter_send_verdict`. -/
def netfilterSendVerdict (ctx : NetfilterContext) (packetId : UInt32) (verdict : Int) : Sys Int := do
  if !ctx.initialized then pure (-1)
  else if (← Proc.ask (.nfqSetVerdict ctx.queueHandle packetId verdict)) < 0 then pure (-1)
  else pure 0

end OnSystem

/-- What a client can do with a context. -/
inductive NetfilterOp where
  | init (queueNum : UInt16)
  | receive
  | sendVerdict (packetId : UInt32) (verdict : Int)
  | cleanup
deriving DecidableEq, Repr

/-- One of them: the new context. -/
def netfilterOp (ctx : NetfilterContext) : NetfilterOp → Sys NetfilterContext
  | .init queueNum => do
    let r ← OnSystem.netfilterInit queueNum
    pure r.2
  | .receive => do
    let r ← OnSystem.netfilterReceivePacket ctx
    pure r.2
  | .sendVerdict packetId verdict => do
    let _ ← OnSystem.netfilterSendVerdict ctx packetId verdict
    pure ctx
  | .cleanup => do
    let r ← OnSystem.netfilterCleanup ctx
    pure r.2

/-- The initializations of a context that is initialized: the connection that it has is lost. -/
def reinitializations (ctx : NetfilterContext) : NetfilterOp → Nat
  | .init _ => if ctx.initialized then 1 else 0
  | _ => 0

/-- A sequence of them: the context, and how often an initialized context was initialized. -/
def netfilterSession (ctx : NetfilterContext) : List NetfilterOp → Sys (NetfilterContext × Nat)
  | [] => pure (ctx, 0)
  | op :: ops => do
    let ctx' ← netfilterOp ctx op
    let r ← netfilterSession ctx' ops
    pure (r.1, reinitializations ctx op + r.2)

/-! ### What is open -/

/-- An open handle with its queue and its descriptor. -/
structure Connection where
  handle : Int
  queue : Int
  fd : Int
deriving DecidableEq, Repr

/-- What of the library is open, and nobody has tried to close, is these connections. -/
structure Connected (s : SysState) (conns : List Connection) : Prop where
  handles : s.handles = conns.map (·.handle)
  queues : s.queues = conns.map fun c => (c.queue, c.handle)
  fds : s.fds = conns.map fun c => (c.handle, c.fd)
  handlesNodup : (conns.map (·.handle)).Nodup
  queuesNodup : (conns.map (·.queue)).Nodup

/-- The context after `netfilter_init` has made the connection. -/
def Connection.context (c : Connection) (queueNum : UInt16) : NetfilterContext :=
  ⟨c.handle, c.queue, c.fd, queueNum, true, 0⟩

/-- The state with one more handle, one more queue, one more descriptor. -/
def SysState.withHandle (s : SysState) (h : Int) : SysState := { s with handles := h :: s.handles }

def SysState.withQueue (s : SysState) (h qh : Int) : SysState := { s with queues := (qh, h) :: s.queues }

def SysState.withFd (s : SysState) (h fd : Int) : SysState := { s with fds := (h, fd) :: s.fds }

/-- The state with other handles and queues that the library has refused to close. -/
def SysState.withKept (s : SysState) (keptHandles keptQueues : List Int) : SysState :=
  { s with keptHandles, keptQueues }

/-- The state with one more connection. -/
def SysState.connect (s : SysState) (c : Connection) : SysState :=
  ((s.withHandle c.handle).withQueue c.handle c.queue).withFd c.handle c.fd

variable {s : SysState} {conns : List Connection} {h qh : Int} {ctx : NetfilterContext}

private theorem connected_init : Connected .init [] := ⟨rfl, rfl, rfl, List.nodup_nil, List.nodup_nil⟩

theorem Connected.connect (hs : Connected s conns) {c : Connection} (hh : c.handle ∉ s.handles)
    (hq : c.queue ∉ s.queues.map (·.1)) : Connected (s.connect c) (c :: conns) := by
  have hq' : c.queue ∉ conns.map (·.queue) := by
    rw [hs.queues, List.map_map] at hq
    exact hq
  rw [hs.handles] at hh
  refine ⟨?_, ?_, ?_, List.nodup_cons.2 ⟨hh, hs.handlesNodup⟩, List.nodup_cons.2 ⟨hq', hs.queuesNodup⟩⟩
  · simp [SysState.connect, SysState.withHandle, SysState.withQueue, SysState.withFd, hs.handles]
  · simp [SysState.connect, SysState.withHandle, SysState.withQueue, SysState.withFd, hs.queues]
  · simp [SysState.connect, SysState.withHandle, SysState.withQueue, SysState.withFd, hs.fds]

theorem Connected.withKept (hs : Connected s conns) (keptHandles keptQueues : List Int) :
    Connected (s.withKept keptHandles keptQueues) conns :=
  ⟨hs.handles, hs.queues, hs.fds, hs.handlesNodup, hs.queuesNodup⟩

/-- A handle that is not open has no queue and no descriptor. -/
private theorem Connected.ne_of_notMem (hs : Connected s conns) (hh : h ∉ s.handles) :
    (∀ q ∈ s.queues, q.2 ≠ h) ∧ ∀ f ∈ s.fds, f.1 ≠ h := by
  rw [hs.handles] at hh
  rw [hs.queues, hs.fds]
  simp only [List.mem_map, forall_exists_index, and_imp, forall_apply_eq_imp_iff₂]
  refine ⟨fun c hc heq => hh ?_, fun c hc heq => hh ?_⟩
  · exact List.mem_map.2 ⟨c, hc, heq⟩
  · exact List.mem_map.2 ⟨c, hc, heq⟩

/-! ### The operations -/

theorem filter_ne_cons {α β : Type} [DecidableEq β] {f : α → β} {x : α} {l : List α} (h : ∀ y ∈ l, f y ≠ f x) :
    (x :: l).filter (fun y => f y ≠ f x) = l := by
  rw [List.filter_cons_of_neg (by simp)]
  exact List.filter_eq_self.2 fun y hy => by simpa using h y hy

/-- A call that opens and closes nothing, with a failure for a negative answer. -/
theorem meets_checked {α : Type} {c : SysCall} {q p : Sys α} {Q : α → SysState → Prop} (hok : linux.ok s c)
    (hnext : ∀ r, linux.next s c r = s) (hq : Meets linux q s Q) (hp : Meets linux p s Q) :
    Meets linux (Proc.ask c >>= fun r => if r < 0 then q else p) s Q := by
  refine meets_ask_bind.2 ⟨hok, fun r _ => ?_⟩
  rw [hnext r]
  exact meets_ite.2 ⟨fun _ => hq, fun _ => hp⟩

/-- Only what the library keeps is new. -/
def SysState.ButKept (s s' : SysState) : Prop := ∃ keptHandles keptQueues, s' = s.withKept keptHandles keptQueues

private theorem nfqCloseFail_meets (hs : Connected s conns) (hh : h ∉ s.handles) (hctx : ctx.nfqHandle = h) :
    Meets linux (OnSystem.nfqCloseFail ctx) (s.withHandle h) fun r s' => r = (-1, ctx) ∧ s.ButKept s' := by
  obtain ⟨hq, hf⟩ := hs.ne_of_notMem hh
  unfold OnSystem.nfqCloseFail
  rw [hctx]
  refine meets_ask_bind.2 ⟨⟨List.mem_cons_self, hq⟩, fun r _ => ?_⟩
  refine ⟨rfl, if r < 0 then h :: s.keptHandles else s.keptHandles, s.keptQueues, ?_⟩
  have hhandles : (h :: s.handles).filter (· ≠ h) = s.handles := by
    refine filter_ne_cons (f := id) fun y hy heq => ?_
    have hyh : y = h := heq
    exact hh (hyh ▸ hy)
  have hfds : s.fds.filter (·.1 ≠ h) = s.fds := List.filter_eq_self.2 fun f hf' => by simpa using hf f hf'
  change ({ s with
    handles := (h :: s.handles).filter (· ≠ h), fds := s.fds.filter (·.1 ≠ h), keptHandles := _ } : SysState) = _
  rw [hhandles, hfds]
  rfl

private theorem nfqDestroyFail_meets (hs : Connected s conns) (hh : h ∉ s.handles) (hq : qh ∉ s.queues.map (·.1))
    (hctx : ctx.nfqHandle = h) (hctxq : ctx.queueHandle = qh) :
    Meets linux (OnSystem.nfqDestroyFail ctx) ((s.withHandle h).withQueue h qh) fun r s' =>
      r = (-1, ctx) ∧ s.ButKept s' := by
  unfold OnSystem.nfqDestroyFail
  rw [hctxq]
  refine meets_ask_bind.2 ⟨List.mem_cons_self, fun r _ => ?_⟩
  have hqueues : ((qh, h) :: s.queues).filter (·.1 ≠ qh) = s.queues :=
    filter_ne_cons (f := Prod.fst) fun y hy heq => hq (List.mem_map.2 ⟨y, hy, heq⟩)
  -- the queue is gone, or has refused to go
  have hnext : linux.next ((s.withHandle h).withQueue h qh) (.nfqDestroyQueue qh) r =
      (s.withKept s.keptHandles (if r < 0 then qh :: s.keptQueues else s.keptQueues)).withHandle h := by
    change ({ s with
      handles := h :: s.handles, queues := ((qh, h) :: s.queues).filter (·.1 ≠ qh), keptQueues := _ } : SysState) = _
    rw [hqueues]
    rfl
  rw [hnext]
  refine (nfqCloseFail_meets (hs.withKept s.keptHandles (if r < 0 then qh :: s.keptQueues else s.keptQueues)) hh
    hctx).imp ?_
  rintro r' s' ⟨hr, keptHandles, keptQueues, rfl⟩
  exact ⟨hr, keptHandles, keptQueues, rfl⟩

/-- What `netfilter_init` does: nothing new is open behind a failure, but what the library refuses to close, and one
connection is made otherwise. -/
def InitResult (s : SysState) (queueNum : UInt16) (r : Int × NetfilterContext) (s' : SysState) : Prop :=
  r.1 = -1 ∧ r.2.initialized = false ∧ s.ButKept s' ∨
    ∃ c : Connection, r = (0, c.context queueNum) ∧ c.handle ≠ 0 ∧ c.queue ≠ 0 ∧ s' = s.connect c ∧
      c.handle ∉ s.handles ∧ c.queue ∉ s.queues.map (·.1)

theorem netfilterInit_meets (hs : Connected s conns) (queueNum : UInt16) :
    Meets linux (OnSystem.netfilterInit queueNum) s (InitResult s queueNum) := by
  unfold OnSystem.netfilterInit
  refine meets_ask_bind.2 ⟨trivial, fun h hh => ?_⟩
  replace hh : h ∉ s.handles := hh.1
  by_cases h0 : h = 0
  · rw [if_pos h0]
    exact Or.inl ⟨rfl, rfl, s.keptHandles, s.keptQueues, if_pos h0⟩
  have hnext : linux.next s .nfqOpen h = s.withHandle h := if_neg h0
  have hmem : linux.ok (s.withHandle h) (.nfqFd h) := List.mem_cons_self
  have hfail : ∀ ctx : NetfilterContext, ctx.nfqHandle = h → ctx.initialized = false →
      Meets linux (OnSystem.nfqCloseFail ctx) (s.withHandle h) (InitResult s queueNum) := by
    intro ctx hctx hinit
    refine (nfqCloseFail_meets hs hh hctx).imp ?_
    rintro r s' ⟨rfl, hkept⟩
    exact Or.inl ⟨rfl, hinit, hkept⟩
  rw [if_neg h0, hnext]
  -- the four calls that bind the handle to the protocol families
  refine meets_checked hmem (fun _ => rfl) (hfail _ rfl rfl) ?_
  refine meets_checked hmem (fun _ => rfl) (hfail _ rfl rfl) ?_
  refine meets_checked hmem (fun _ => rfl) (hfail _ rfl rfl) ?_
  refine meets_checked hmem (fun _ => rfl) (hfail _ rfl rfl) ?_
  refine meets_ask_bind.2 ⟨hmem, fun qh hqh => ?_⟩
  replace hqh : qh ∉ s.queues.map (·.1) := hqh.1
  dsimp only
  by_cases hq0 : qh = 0
  · have hsame : linux.next (s.withHandle h) (.nfqCreateQueue h queueNum) qh = s.withHandle h := if_pos hq0
    rw [if_pos hq0, hsame]
    exact hfail _ rfl rfl
  have hnextq : linux.next (s.withHandle h) (.nfqCreateQueue h queueNum) qh = (s.withHandle h).withQueue h qh :=
    if_neg hq0
  have hdestroy : ∀ ctx : NetfilterContext, ctx.nfqHandle = h → ctx.queueHandle = qh → ctx.initialized = false →
      Meets linux (OnSystem.nfqDestroyFail ctx) ((s.withHandle h).withQueue h qh) (InitResult s queueNum) := by
    intro ctx hctx hctxq hinit
    refine (nfqDestroyFail_meets hs hh hqh hctx hctxq).imp ?_
    rintro r s' ⟨rfl, hkept⟩
    exact Or.inl ⟨rfl, hinit, hkept⟩
  rw [if_neg hq0, hnextq]
  refine meets_checked List.mem_cons_self (fun _ => rfl) (hdestroy _ rfl rfl rfl) ?_
  refine meets_ask_bind.2 ⟨hmem, fun fd _ => ?_⟩
  by_cases hfd : fd < 0
  · have hsame : linux.next ((s.withHandle h).withQueue h qh) (.nfqFd h) fd = (s.withHandle h).withQueue h qh :=
      if_pos hfd
    rw [if_pos hfd, hsame]
    exact hdestroy _ rfl rfl rfl
  · rw [if_neg hfd]
    exact Or.inr ⟨⟨h, qh, fd⟩, rfl, h0, hq0, if_neg hfd, hh, hqh⟩

/-! ### Sessions -/

/-- What is open is the connection that the context has, if it is initialized, and `n` lost ones. -/
def SessionInv (ctx : NetfilterContext) (n : Nat) (s : SysState) : Prop :=
  ∃ lost : List Connection, lost.length = n ∧
    (ctx.initialized = false ∧ Connected s lost ∨
      ctx.initialized = true ∧ ctx.nfqHandle ≠ 0 ∧ ctx.queueHandle ≠ 0 ∧
        Connected s (⟨ctx.nfqHandle, ctx.queueHandle, ctx.fd⟩ :: lost))

variable {n : Nat}

/-- Whatever is open when a context is initialized over an old one counts as lost. -/
private theorem SessionInv.connected (h : SessionInv ctx n s) :
    ∃ conns : List Connection, Connected s conns ∧ conns.length = n + if ctx.initialized then 1 else 0 := by
  obtain ⟨lost, rfl, ⟨hinit, hs⟩ | ⟨hinit, -, -, hs⟩⟩ := h
  · exact ⟨lost, hs, by simp [hinit]⟩
  · exact ⟨_, hs, by simp [hinit]⟩

private theorem netfilterInit_session (queueNum : UInt16) (h : SessionInv ctx n s) :
    Meets linux (OnSystem.netfilterInit queueNum) s fun r s' =>
      SessionInv r.2 (n + if ctx.initialized then 1 else 0) s' := by
  obtain ⟨conns, hs, hlen⟩ := h.connected
  refine (netfilterInit_meets hs queueNum).imp ?_
  rintro ⟨r, ctx'⟩ s' (⟨-, hinit, keptHandles, keptQueues, rfl⟩ | ⟨c, heq, hh0, hq0, rfl, hh, hq⟩)
  · exact ⟨conns, hlen, Or.inl ⟨hinit, hs.withKept _ _⟩⟩
  · obtain ⟨-, rfl⟩ := Prod.mk.inj heq
    exact ⟨conns, hlen, Or.inr ⟨rfl, hh0, hq0, hs.connect hh hq⟩⟩

/-- Without its first connection: the queue is destroyed, then the handle closed. -/
private theorem Connected.tail {c : Connection} {lost : List Connection} (hs : Connected s (c :: lost)) (r r' : Int) :
    linux.ok (linux.next s (.nfqDestroyQueue c.queue) r) (.nfqClose c.handle) ∧
      Connected (linux.next (linux.next s (.nfqDestroyQueue c.queue) r) (.nfqClose c.handle) r') lost := by
  obtain ⟨hh, hhs⟩ := List.nodup_cons.1 hs.handlesNodup
  obtain ⟨hq, hqs⟩ := List.nodup_cons.1 hs.queuesNodup
  have hhandle : ∀ d ∈ lost, d.handle ≠ c.handle := fun d hd heq => hh (List.mem_map.2 ⟨d, hd, heq⟩)
  have hqueue : ∀ d ∈ lost, d.queue ≠ c.queue := fun d hd heq => hq (List.mem_map.2 ⟨d, hd, heq⟩)
  have hqueues : s.queues.filter (·.1 ≠ c.queue) = lost.map fun d => (d.queue, d.handle) := by
    rw [hs.queues, List.map_cons]
    refine filter_ne_cons (f := Prod.fst) ?_
    simpa using hqueue
  have hhandles : s.handles.filter (· ≠ c.handle) = lost.map (·.handle) := by
    rw [hs.handles, List.map_cons]
    refine filter_ne_cons (f := id) ?_
    simpa using hhandle
  have hfds : s.fds.filter (·.1 ≠ c.handle) = lost.map fun d => (d.handle, d.fd) := by
    rw [hs.fds, List.map_cons]
    refine filter_ne_cons (f := Prod.fst) ?_
    simpa using hhandle
  refine ⟨⟨?_, ?_⟩, hhandles, hqueues, hfds, hhs, hqs⟩
  · change c.handle ∈ s.handles
    rw [hs.handles]
    exact List.mem_cons_self
  · change ∀ q ∈ s.queues.filter (·.1 ≠ c.queue), q.2 ≠ c.handle
    rw [hqueues]
    simpa using hhandle

theorem netfilterCleanup_session (h : SessionInv ctx n s) :
    Meets linux (OnSystem.netfilterCleanup ctx) s fun r s' => SessionInv r.2 n s' ∧ r.2.initialized = false := by
  unfold OnSystem.netfilterCleanup
  obtain ⟨lost, rfl, ⟨hinit, hs⟩ | ⟨hinit, hh0, hq0, hs⟩⟩ := h
  · rw [hinit]
    exact ⟨⟨lost, rfl, Or.inl ⟨hinit, hs⟩⟩, hinit⟩
  · have hopen : linux.ok s (.nfqDestroyQueue ctx.queueHandle) := by
      change ctx.queueHandle ∈ s.queues.map (·.1)
      rw [hs.queues]
      exact List.mem_cons_self
    rw [hinit, if_neg (by simp), if_pos hq0, if_pos hh0]
    exact ⟨hopen, fun r _ => ⟨(hs.tail r 0).1, fun r' _ => ⟨⟨lost, rfl, Or.inl ⟨rfl, (hs.tail r r').2⟩⟩, rfl⟩⟩⟩

theorem netfilterReceivePacket_session (h : SessionInv ctx n s) :
    Meets linux (OnSystem.netfilterReceivePacket ctx) s fun r s' =>
      SessionInv r.2 n s' ∧ r.2.initialized = ctx.initialized := by
  unfold OnSystem.netfilterReceivePacket
  obtain ⟨lost, rfl, ⟨hinit, hs⟩ | ⟨hinit, hh0, hq0, hs⟩⟩ := id h
  · rw [if_pos (by simp [hinit])]
    exact ⟨h, rfl⟩
  · have hinv (len : Int) : SessionInv { ctx with bufferLen := len } lost.length s :=
      ⟨lost, rfl, Or.inr ⟨hinit, hh0, hq0, hs⟩⟩
    have hfd : linux.ok s (.recv ctx.fd) := by
      change ctx.fd ∈ s.fds.map (·.2)
      rw [hs.fds]
      exact List.mem_cons_self
    have hhandle (len : Int) : linux.ok s (.nfqHandlePacket ctx.nfqHandle len) := by
      change ctx.nfqHandle ∈ s.handles
      rw [hs.handles]
      exact List.mem_cons_self
    rw [if_neg (by simp [hinit])]
    refine meets_ask_bind.2 ⟨hfd, fun len _ => meets_ite.2 ⟨fun _ => ?_, fun _ => ?_⟩⟩
    · exact meets_ask_bind.2 ⟨trivial, fun r _ => meets_ite.2 ⟨fun _ => ⟨h, rfl⟩, fun _ => ⟨h, rfl⟩⟩⟩
    · exact meets_checked (hhandle len) (fun _ => rfl) ⟨hinv len, rfl⟩ ⟨hinv len, rfl⟩

private theorem netfilterSendVerdict_session (packetId : UInt32) (verdict : Int) (h : SessionInv ctx n s) :
    Meets linux (OnSystem.netfilterSendVerdict ctx packetId verdict) s fun _ s' => SessionInv ctx n s' := by
  unfold OnSystem.netfilterSendVerdict
  by_cases hinit : ctx.initialized = true
  · obtain ⟨lost, -, ⟨hinit', -⟩ | ⟨-, -, -, hs⟩⟩ := id h
    · simp [hinit] at hinit'
    · have hqueue : linux.ok s (.nfqSetVerdict ctx.queueHandle packetId verdict) := by
        change ctx.queueHandle ∈ s.queues.map (·.1)
        rw [hs.queues]
        exact List.mem_cons_self
      rw [hinit, if_neg (by simp)]
      exact meets_checked hqueue (fun _ => rfl) h h
  · rw [if_pos (by simpa using hinit)]
    exact h

/-- One operation. -/
private theorem netfilterOp_session (op : NetfilterOp) (h : SessionInv ctx n s) :
    Meets linux (netfilterOp ctx op) s fun ctx' s' => SessionInv ctx' (n + reinitializations ctx op) s' := by
  cases op with
  | init queueNum => exact meets_bind.2 (netfilterInit_session queueNum h)
  | receive => exact meets_bind.2 ((netfilterReceivePacket_session h).imp fun _ _ h' => h'.1)
  | sendVerdict packetId verdict => exact meets_bind.2 (netfilterSendVerdict_session packetId verdict h)
  | cleanup => exact meets_bind.2 ((netfilterCleanup_session h).imp fun _ _ h' => h'.1)

/-- A sequence of operations. -/
private theorem netfilterSession_meets (ops : List NetfilterOp) (h : SessionInv ctx n s) :
    Meets linux (netfilterSession ctx ops) s fun r s' => SessionInv r.1 (n + r.2) s' := by
  induction ops generalizing ctx n s with
  | nil => exact h
  | cons op ops ih =>
    refine meets_bind.2 ((netfilterOp_session op h).imp fun ctx' s' h' => meets_bind.2 ((ih h').imp ?_))
    intro r s'' hr
    rw [Nat.add_assoc] at hr
    exact hr

/-- No call goes to a handle, a queue or a descriptor that is not open or that was to be closed before, and no handle is
closed before its queue was to be destroyed.  At the end one handle and one queue are open if the context is
initialized, one of each for every time an initialized context was initialized again, and those for which the library
has answered a close or a destroy with a failure. -/
theorem netfilter_session_open (ops : List NetfilterOp) :
    Meets (linux.logged SysCall.failure) (netfilterSession .zero ops) (.init, []) fun r x =>
      x.1.openHandles = r.2 + (if r.1.initialized then 1 else 0) + x.2.countP SysCall.isNfqClose ∧
      x.1.openQueues = r.2 + (if r.1.initialized then 1 else 0) + x.2.countP SysCall.isNfqDestroyQueue ∧
      x.1.fds.length = r.2 + (if r.1.initialized then 1 else 0) := by
  have hinv : SessionInv .zero 0 .init := ⟨[], rfl, Or.inl ⟨rfl, connected_init⟩⟩
  have hsession := netfilterSession_meets ops hinv
  refine (hsession.logged_frame (makes_true _) (fun s l c r _ h => h.next c r) keptByFailures_init).imp ?_
  rintro r ⟨s, failures⟩ ⟨hr, hkept⟩
  obtain ⟨conns, hs, hlen⟩ := hr.connected
  rw [Nat.zero_add] at hlen
  refine ⟨?_, ?_, ?_⟩
  · rw [SysState.openHandles, hs.handles, List.length_map, hlen, hkept.handles]
  · rw [SysState.openQueues, hs.queues, List.length_map, hlen, hkept.queues]
  · rw [hs.fds, List.length_map, hlen]

end GoodbyeDpi
