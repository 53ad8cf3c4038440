import GoodbyeDpi.NetfilterSession

/-!
# Raw sockets (`src/capture/raw_socket.c`)

The two descriptors of the module through any sequence of its operations and for any answers of the system.  A packet
is sent, received and a descriptor closed only on an open socket.  As long as `setup_raw_socket` is called only when
the module has no descriptor, the open sockets are those that it has.
-/

namespace GoodbyeDpi

open CSem

/-- `raw_socket_fd` and `raw_socket_ipv6_fd`. -/
structure RawSockets where
  fd : Int
  ipv6Fd : Int
deriving DecidableEq, Repr

namespace RawSockets

/-- The values at the start of the program. -/
def closed : RawSockets := ⟨-1, -1⟩

/-- The descriptor that a packet of the family goes through. -/
def fdFor (socks : RawSockets) (isIpv6 : Bool) : Int := if isIpv6 then socks.ipv6Fd else socks.fd

/-- The descriptors that the module has. -/
def kept (socks : RawSockets) : List Int := [socks.fd, socks.ipv6Fd].filter (0 ≤ ·)

end RawSockets

namespace OnSystem

/-- `setup_raw_socket`. -/
def setupRawSocket (socks : RawSockets) : Sys (Int × RawSockets) := do
  let fd ← Proc.ask (.socket .inet)
  if fd < 0 then pure (-1, { socks with fd })
  else
    let ipv6Fd ← Proc.ask (.socket .inet6)
    if ipv6Fd < 0 then
      let _ ← Proc.ask (.close fd)
      pure (-1, ⟨-1, ipv6Fd⟩)
    else
      -- a failure of these two is only logged
      let _ ← Proc.ask (.setsockopt fd)
      let _ ← Proc.ask (.setsockopt ipv6Fd)
      pure (0, ⟨fd, ipv6Fd⟩)

/-- `cleanup_raw_socket`. -/
def cleanupRawSocket (socks : RawSockets) : Sys RawSockets := do
  let socks ← if 0 ≤ socks.fd then do
      let _ ← Proc.ask (.close socks.fd)
      pure { socks with fd := -1 }
    else pure socks
  if 0 ≤ socks.ipv6Fd then do
    let _ ← Proc.ask (.close socks.ipv6Fd)
    pure { socks with ipv6Fd := -1 }
  else pure socks

/-- `send_raw_packet`. -/
def sendRawPacket (socks : RawSockets) (packetLen : Nat) (isIpv6 : Bool) : Sys Int := do
  if socks.fdFor isIpv6 < 0 then pure (-1)
  else
    let sent ← Proc.ask (.send (socks.fdFor isIpv6) packetLen)
    -- a packet that is sent in part is only logged
    if sent < 0 then pure (-1) else pure 0

/-- `receive_raw_packet`. -/
def receiveRawPacket (socks : RawSockets) (bufferLen : Nat) (isIpv6 : Bool) : Sys Int := do
  if socks.fdFor isIpv6 < 0 then pure (-1)
  else
    let received ← Proc.ask (.recvfrom (socks.fdFor isIpv6) bufferLen)
    if received < 0 then
      if (← Proc.ask .wouldBlock) ≠ 0 then pure 0 else pure (-1)
    else pure received

end OnSystem

/-- `is_raw_socket_ready`. -/
def isRawSocketReady (socks : RawSockets) : Bool := 0 ≤ socks.fd && 0 ≤ socks.ipv6Fd

/-- `get_raw_socket_fds`: its result and the two descriptors. -/
def getRawSocketFds (socks : RawSockets) : Int × Int × Int :=
  (if 0 ≤ socks.fd ∧ 0 ≤ socks.ipv6Fd then 0 else -1, socks.fd, socks.ipv6Fd)

inductive RawSocketOp where
  | setup
  | send (packetLen : Nat) (isIpv6 : Bool)
  | receive (bufferLen : Nat) (isIpv6 : Bool)
  | cleanup
deriving DecidableEq, Repr

/-- One operation: the new descriptors. -/
def rawSocketOp (socks : RawSockets) : RawSocketOp → Sys RawSockets
  | .setup => do
    let r ← OnSystem.setupRawSocket socks
    pure r.2
  | .send packetLen isIpv6 => do
    let _ ← OnSystem.sendRawPacket socks packetLen isIpv6
    pure socks
  | .receive bufferLen isIpv6 => do
    let _ ← OnSystem.receiveRawPacket socks bufferLen isIpv6
    pure socks
  | .cleanup => OnSystem.cleanupRawSocket socks

/-- A setup of a module that has a descriptor. -/
def setupsOverOpen (socks : RawSockets) : RawSocketOp → Nat
  | .setup => if socks.kept = [] then 0 else 1
  | _ => 0

/-- A sequence of them: the descriptors, and the number of the setups of a module that has a descriptor. -/
def rawSocketSession (socks : RawSockets) : List RawSocketOp → Sys (RawSockets × Nat)
  | [] => pure (socks, 0)
  | op :: ops => do
    let socks' ← rawSocketOp socks op
    let r ← rawSocketSession socks' ops
    pure (r.1, setupsOverOpen socks op + r.2)

/-! ### What one operation keeps -/

/-- The descriptors of the module are open sockets, and they are all that is open if `n = 0`. -/
structure SocketsOpen (socks : RawSockets) (n : Nat) (s : SysState) : Prop where
  distinct : 0 ≤ socks.fd → 0 ≤ socks.ipv6Fd → socks.fd ≠ socks.ipv6Fd
  kept_open : ∀ fd ∈ socks.kept, fd ∈ s.sockets
  open_kept : n = 0 → ∀ fd ∈ s.sockets, fd ∈ socks.kept

variable {socks : RawSockets} {n : Nat} {s : SysState} {fd : Int}

private theorem mem_kept : fd ∈ socks.kept ↔ (fd = socks.fd ∨ fd = socks.ipv6Fd) ∧ 0 ≤ fd := by
  simp [RawSockets.kept, List.mem_filter]

private theorem socketsOpen_closed : SocketsOpen .closed 0 .init where
  distinct := by decide
  kept_open := by decide
  open_kept := fun _ fd hfd => absurd hfd List.not_mem_nil

private theorem SocketsOpen.fdFor (h : SocketsOpen socks n s) (isIpv6 : Bool) (hfd : ¬ socks.fdFor isIpv6 < 0) :
    socks.fdFor isIpv6 ∈ s.sockets := by
  refine h.kept_open _ (mem_kept.2 ⟨?_, by omega⟩)
  cases isIpv6
  · exact Or.inl rfl
  · exact Or.inr rfl

private theorem setupRawSocket_open (h : SocketsOpen socks n s) :
    Meets linux (OnSystem.setupRawSocket socks) s fun r s' =>
      SocketsOpen r.2 (n + setupsOverOpen socks .setup) s' := by
  -- nothing is open before a setup that counts for nothing
  have hnone : n + setupsOverOpen socks .setup = 0 → ∀ fd, fd ∉ s.sockets := by
    intro hn fd hfd
    obtain ⟨hn0, hover⟩ := Nat.add_eq_zero_iff.1 hn
    have hkept : socks.kept = [] := by
      by_contra hne
      simp [setupsOverOpen, hne] at hover
    have := h.open_kept hn0 fd hfd
    rw [hkept] at this
    exact absurd this List.not_mem_nil
  have hminus : ¬ (0 : Int) ≤ -1 := by decide
  unfold OnSystem.setupRawSocket
  refine meets_ask_bind.2 ⟨trivial, fun fd hfd => meets_ite.2 ⟨fun hneg => ?_, fun hpos => ?_⟩⟩
  · have hnext : linux.next s (.socket .inet) fd = s := if_pos hneg
    rw [hnext]
    refine ⟨fun hfd => absurd hfd (Int.not_le.2 hneg), fun fd' hfd' => ?_,
      fun hn fd' hfd' => absurd hfd' (hnone hn fd')⟩
    obtain ⟨rfl | rfl, hpos⟩ := mem_kept.1 hfd'
    · exact absurd hneg (by omega)
    · exact h.kept_open _ (mem_kept.2 ⟨Or.inr rfl, hpos⟩)
  have hnext : linux.next s (.socket .inet) fd = { s with sockets := fd :: s.sockets } := if_neg hpos
  rw [hnext]
  refine meets_ask_bind.2 ⟨trivial, fun ipv6Fd hfd6 => meets_ite.2 ⟨fun hneg => ?_, fun hpos6 => ?_⟩⟩
  · have hnext6 : linux.next { s with sockets := fd :: s.sockets } (.socket .inet6) ipv6Fd =
        { s with sockets := fd :: s.sockets } := if_pos hneg
    rw [hnext6]
    refine meets_ask_bind.2 ⟨List.mem_cons_self, fun r _ => ⟨fun hfd => absurd hfd hminus, ?_, ?_⟩⟩
    · intro fd' hfd'
      obtain ⟨rfl | rfl, hpos'⟩ := mem_kept.1 hfd'
      · exact absurd hpos' hminus
      · exact absurd hneg (by omega)
    · intro hn fd' hfd'
      have hsockets : (fd :: s.sockets).filter (· ≠ fd) = s.sockets := by
        refine filter_ne_cons (f := id) fun y hy heq => ?_
        have hy' : y = fd := heq
        exact hfd (hy' ▸ hy)
      have hmem : fd' ∈ (fd :: s.sockets).filter (· ≠ fd) := hfd'
      rw [hsockets] at hmem
      exact absurd hmem (hnone hn fd')
  · have hnext6 : linux.next { s with sockets := fd :: s.sockets } (.socket .inet6) ipv6Fd =
        { s with sockets := ipv6Fd :: fd :: s.sockets } := if_neg hpos6
    rw [hnext6]
    have hne : ipv6Fd ∉ fd :: s.sockets := hfd6
    refine meets_ask_bind.2 ⟨List.mem_cons_of_mem _ List.mem_cons_self, fun r _ => ?_⟩
    refine meets_ask_bind.2 ⟨List.mem_cons_self, fun r' _ => ⟨fun _ _ heq => ?_, fun fd' hfd' => ?_, ?_⟩⟩
    · have hfd6 : ipv6Fd = fd := heq.symm
      exact hne (hfd6 ▸ List.mem_cons_self)
    · obtain ⟨rfl | rfl, -⟩ := mem_kept.1 hfd'
      · exact List.mem_cons_of_mem _ List.mem_cons_self
      · exact List.mem_cons_self
    · intro hn fd' hfd'
      rcases List.mem_cons.1 hfd' with rfl | hfd'
      · exact mem_kept.2 ⟨Or.inr rfl, by omega⟩
      rcases List.mem_cons.1 hfd' with rfl | hfd'
      · exact mem_kept.2 ⟨Or.inl rfl, by omega⟩
      · exact absurd hfd' (hnone hn fd')

/-- A setup succeeds exactly when both descriptors are there behind it. -/
theorem setupRawSocket_ready (socks : RawSockets) (s : SysState) :
    Meets linux (OnSystem.setupRawSocket socks) s fun r _ =>
      r.1 = (getRawSocketFds r.2).1 ∧ (isRawSocketReady r.2 = true ↔ r.1 = 0) := by
  have hnot (socks' : RawSockets) (hfd : ¬ 0 ≤ socks'.fd) :
      (-1 : Int) = (getRawSocketFds socks').1 ∧ (isRawSocketReady socks' = true ↔ (-1 : Int) = 0) := by
    simp [getRawSocketFds, isRawSocketReady, hfd]
  have hminus : ¬ (0 : Int) ≤ -1 := by decide
  refine meets_ask_bind.2 ⟨trivial, fun fd _ => meets_ite.2 ⟨fun hneg => hnot _ (Int.not_le.2 hneg), fun hpos => ?_⟩⟩
  have hnext : linux.next s (.socket .inet) fd = { s with sockets := fd :: s.sockets } := if_neg hpos
  rw [hnext]
  refine meets_ask_bind.2 ⟨trivial, fun ipv6Fd _ => meets_ite.2 ⟨fun hneg => ?_, fun hpos6 => ?_⟩⟩
  · have hnext6 : linux.next { s with sockets := fd :: s.sockets } (.socket .inet6) ipv6Fd =
        { s with sockets := fd :: s.sockets } := if_pos hneg
    rw [hnext6]
    exact meets_ask_bind.2 ⟨List.mem_cons_self, fun _ _ => hnot _ hminus⟩
  · have hnext6 : linux.next { s with sockets := fd :: s.sockets } (.socket .inet6) ipv6Fd =
        { s with sockets := ipv6Fd :: fd :: s.sockets } := if_neg hpos6
    rw [hnext6]
    refine meets_ask_bind.2 ⟨List.mem_cons_of_mem _ List.mem_cons_self, fun _ _ => ?_⟩
    refine meets_ask_bind.2 ⟨List.mem_cons_self, fun _ _ => ?_⟩
    simp [getRawSocketFds, isRawSocketReady, Int.not_lt.1 hpos, Int.not_lt.1 hpos6]

/-- The module without the descriptor of one family, which has been closed. -/
theorem SocketsOpen.close (h : SocketsOpen socks n s) (socks' : RawSockets) (hfd : fd ∈ socks.kept)
    (hkept : ∀ fd', fd' ∈ socks'.kept ↔ fd' ∈ socks.kept ∧ fd' ≠ fd)
    (hdistinct : 0 ≤ socks'.fd → 0 ≤ socks'.ipv6Fd → socks'.fd ≠ socks'.ipv6Fd) (r : Int) :
    linux.ok s (.close fd) ∧ SocketsOpen socks' n (linux.next s (.close fd) r) := by
  have hmem : ∀ fd', fd' ∈ (linux.next s (.close fd) r).sockets ↔ fd' ∈ s.sockets ∧ fd' ≠ fd := by
    intro fd'
    change fd' ∈ s.sockets.filter (· ≠ fd) ↔ _
    simp [List.mem_filter]
  refine ⟨h.kept_open fd hfd, hdistinct, fun fd' hfd' => ?_, fun hn fd' hfd' => ?_⟩
  · obtain ⟨hold, hne⟩ := (hkept fd').1 hfd'
    exact (hmem fd').2 ⟨h.kept_open fd' hold, hne⟩
  · obtain ⟨hold, hne⟩ := (hmem fd').1 hfd'
    exact (hkept fd').2 ⟨h.open_kept hn fd' hold, hne⟩

private theorem cleanupRawSocket_open (h : SocketsOpen socks n s) :
    Meets linux (OnSystem.cleanupRawSocket socks) s fun socks' s' => SocketsOpen socks' n s' ∧ socks'.kept = [] := by
  have hsecond : ∀ (socks' : RawSockets) (s' : SysState), SocketsOpen socks' n s' → socks'.fd < 0 →
      Meets linux (if 0 ≤ socks'.ipv6Fd then do
        let _ ← Proc.ask (.close socks'.ipv6Fd)
        pure { socks' with ipv6Fd := -1 } else pure socks') s'
        fun socks'' s'' => SocketsOpen socks'' n s'' ∧ socks''.kept = [] := by
    intro socks' s' h' hneg
    refine meets_ite.2 ⟨fun hpos => ?_, fun hneg6 => ⟨h', ?_⟩⟩
    · have hclose := h'.close { socks' with ipv6Fd := -1 } (mem_kept.2 ⟨Or.inr rfl, hpos⟩) ?_ ?_
      · refine meets_ask_bind.2 ⟨(hclose 0).1, fun r _ => ⟨(hclose r).2, ?_⟩⟩
        simp [RawSockets.kept, hneg]
      · intro fd'
        rw [mem_kept, mem_kept]
        dsimp only
        omega
      · dsimp only
        omega
    · simp [RawSockets.kept, hneg, Int.not_le.1 hneg6]
  have hminus : (-1 : Int) < 0 := by decide
  unfold OnSystem.cleanupRawSocket
  refine meets_ite.2 ⟨fun hpos => ?_, fun hneg => hsecond _ _ h (Int.not_le.1 hneg)⟩
  have hclose := h.close { socks with fd := -1 } (mem_kept.2 ⟨Or.inl rfl, hpos⟩) ?_ ?_
  · exact meets_ask_bind.2 ⟨(hclose 0).1, fun r _ => hsecond _ _ (hclose r).2 hminus⟩
  · intro fd'
    have := h.distinct hpos
    rw [mem_kept, mem_kept]
    dsimp only
    omega
  · intro hfd
    exact absurd hfd (Int.not_le.2 hminus)

private theorem sendRawPacket_open (h : SocketsOpen socks n s) (packetLen : Nat) (isIpv6 : Bool) :
    Meets linux (OnSystem.sendRawPacket socks packetLen isIpv6) s fun _ s' => SocketsOpen socks n s' :=
  meets_ite.2 ⟨fun _ => h, fun hfd => meets_checked (h.fdFor isIpv6 hfd) (fun _ => rfl) h h⟩

private theorem receiveRawPacket_open (h : SocketsOpen socks n s) (bufferLen : Nat) (isIpv6 : Bool) :
    Meets linux (OnSystem.receiveRawPacket socks bufferLen isIpv6) s fun _ s' => SocketsOpen socks n s' := by
  refine meets_ite.2 ⟨fun _ => h, fun hfd => meets_ask_bind.2 ⟨h.fdFor isIpv6 hfd, fun r _ => ?_⟩⟩
  refine meets_ite.2 ⟨fun _ => meets_ask_bind.2 ⟨trivial, fun r' _ => ?_⟩, fun _ => h⟩
  exact meets_ite.2 ⟨fun _ => h, fun _ => h⟩

/-- One operation. -/
private theorem rawSocketOp_open (op : RawSocketOp) (h : SocketsOpen socks n s) :
    Meets linux (rawSocketOp socks op) s fun socks' s' => SocketsOpen socks' (n + setupsOverOpen socks op) s' := by
  cases op with
  | setup => exact meets_bind.2 (setupRawSocket_open h)
  | send packetLen isIpv6 => exact meets_bind.2 (sendRawPacket_open h packetLen isIpv6)
  | receive bufferLen isIpv6 => exact meets_bind.2 (receiveRawPacket_open h bufferLen isIpv6)
  | cleanup => exact (cleanupRawSocket_open h).imp fun _ _ h' => h'.1

/-! ### Sessions -/

private theorem rawSocketSession_open (ops : List RawSocketOp) (h : SocketsOpen socks n s) :
    Meets linux (rawSocketSession socks ops) s fun r s' => SocketsOpen r.1 (n + r.2) s' := by
  induction ops generalizing socks n s with
  | nil => exact h
  | cons op ops ih =>
    refine meets_bind.2 ((rawSocketOp_open op h).imp fun socks' s' h' => meets_bind.2 ((ih h').imp ?_))
    intro r s'' hr
    rw [Nat.add_assoc] at hr
    exact hr

/-- From the start of the program no packet is sent or received and no descriptor is closed except on an open socket.
The descriptors of the module are open sockets, and no other socket is open unless the module was set up while it had a
descriptor. -/
theorem rawSocket_session_open (ops : List RawSocketOp) :
    Meets linux (rawSocketSession .closed ops) .init fun r s =>
      (∀ fd ∈ r.1.kept, fd ∈ s.sockets) ∧ (r.2 = 0 → ∀ fd, fd ∈ s.sockets ↔ fd ∈ r.1.kept) := by
  refine (rawSocketSession_open ops socketsOpen_closed).imp fun r s hr => ⟨hr.kept_open, fun hn fd => ?_⟩
  exact ⟨hr.open_kept (by rw [hn]) fd, hr.kept_open fd⟩

end GoodbyeDpi
