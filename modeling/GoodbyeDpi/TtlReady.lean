import GoodbyeDpi.TtlFamilies
import Mathlib.Data.Sym.Sym2

/-!
# How long the TTL tracker stays ready for a connection

A run of updates and cleanups with packets of one IP version.  Once the tracker is ready for a connection it stays so,
with the same TTL delta, whatever else is tracked and however full the table is, exactly until a cleanup comes more
than 300 seconds after the last packet of the connection.
-/

namespace GoodbyeDpi

open CSem FilledArray

/-! ### Sessions -/

/-- The two full endpoints, in either order. -/
abbrev TtlSession := Sym2 (Addr × UInt16)

def TtlEntry.session (e : TtlEntry) : TtlSession := s((e.srcIp, e.srcPort), (e.dstIp, e.dstPort))

def Packet.ttlSession (p : Packet) : TtlSession := s(p.fullSource, p.fullDest)

/-- The addresses are those that packets of this version leave in an entry. -/
def TtlEntry.OfVersion (isIpv6 : Bool) (e : TtlEntry) : Prop :=
  isIpv6 = false → e.srcIp = Addr.ofWord e.srcIp.w0 ∧ e.dstIp = Addr.ofWord e.dstIp.w0

def TtlOp.OfVersion (isIpv6 : Bool) : TtlOp → Prop
  | .update p _ _ _ => p.isIpv6 = isIpv6
  | .cleanupExpired _ => True

/-- The invariant of a table that has seen packets of one version. -/
structure VersionInv (isIpv6 : Bool) (t : TtlTable) : Prop extends TtlInv t where
  version : ∀ e ∈ t.live, e.OfVersion isIpv6

/-- The clock at the last packet of the connection that was tracked. -/
def seenAfter (p : Packet) (seen : Int) : TtlOp → Int
  | .update q _ now _ => if (q.type = .ipv4Tcp ∨ q.type = .ipv6Tcp) ∧ q.ttlSession = p.ttlSession then now else seen
  | .cleanupExpired _ => seen

def lastSeen (p : Packet) (ops : List TtlOp) : Int := ops.foldl (seenAfter p) 0

variable {e f : TtlEntry} {p q : Packet} {t : TtlTable} {isIpv6 : Bool} {ttl : UInt8} {now now' : Int}
  {ops : List TtlOp}

theorem session_touchEntry : (touchEntry e ttl now).session = e.session := by
  obtain ⟨h1, h2, h3, h4, -⟩ := touchEntry_endpoints e ttl now
  unfold TtlEntry.session
  rw [h1, h2, h3, h4]

private theorem lastSeen_touchEntry : (touchEntry e ttl now).lastSeen = now := by
  unfold touchEntry
  split <;> rfl

private theorem touchEntry_established (he : e.isEstablished = true) (ttl : UInt8) (now : Int) :
    (touchEntry e ttl now).isEstablished = true ∧ (touchEntry e ttl now).ttlDelta = e.ttlDelta := by
  rw [touchEntry, if_pos he]
  exact ⟨he, rfl⟩

theorem TtlEntry.Distinct.session_ne (h : e.Distinct f) : e.session ≠ f.session := by
  intro heq
  unfold TtlEntry.session at heq
  simp only [Sym2.eq_iff, Prod.mk.injEq] at heq
  rcases heq with ⟨⟨h1, h2⟩, h3, h4⟩ | ⟨⟨h1, h2⟩, h3, h4⟩
  · exact h.1 ⟨h1, h3, h2, h4⟩
  · exact h.2 ⟨h1, h3, h2, h4⟩

/-- Packets of the version find the entries of their session. -/
theorem ttlMatches_iff_session (hv : e.OfVersion p.isIpv6) (htcp : e.protocol = tcpProtocol) :
    ttlMatches p e = true ↔ e.session = p.ttlSession := by
  unfold ttlMatches TtlEntry.session Packet.ttlSession Packet.fullSource Packet.fullDest
  cases hp : p.isIpv6 with
  | true =>
    simp only [htcp, ↓reduceIte, beq_self_eq_true, Bool.and_true, Bool.or_eq_true, Bool.and_eq_true, beq_iff_eq,
      Sym2.eq_iff, Prod.mk.injEq]
    tauto
  | false =>
    obtain ⟨hsrc, hdst⟩ := hv hp
    have hword {a b : Addr} (ha : a = Addr.ofWord a.w0) : a = Addr.ofWord b.w0 ↔ a.w0 = b.w0 :=
      ⟨fun h => by rw [h]; rfl, fun h => by rw [ha, h]⟩
    simp only [htcp, Bool.false_eq_true, ↓reduceIte, beq_self_eq_true, Bool.and_true, Bool.or_eq_true,
      Bool.and_eq_true, beq_iff_eq, Sym2.eq_iff, Prod.mk.injEq, hword hsrc, hword hdst]
    tauto

/-! ### The entry of a connection -/

theorem TtlInv.eq_of_session (h : TtlInv t) (he : e ∈ t.live) (hf : f ∈ t.live) (hs : e.session = f.session) :
    e = f := by
  by_contra hne
  have : Std.Symm TtlEntry.Distinct := ⟨fun _ _ hd => hd.symm⟩
  exact (h.distinct.forall he hf hne).session_ne hs

theorem VersionInv.find (h : VersionInv p.isIpv6 t) (he : e ∈ t.live) (hs : e.session = p.ttlSession) :
    ∃ i, findTtlEntry t p = some i ∧ t.live[i]? = some e := by
  have hmatch (f : TtlEntry) (hf : f ∈ t.live) :
      (f.protocol != 0 && ttlMatches p f) = true ↔ f.session = p.ttlSession := by
    have htcp := (h.valid f hf).tcp
    rw [← ttlMatches_iff_session (h.version f hf) htcp, htcp]
    simp [tcpProtocol]
  cases hfind : findTtlEntry t p with
  | none =>
    have hno := List.findIdx?_eq_none_iff.1 hfind e he
    rw [(hmatch e he).2 hs] at hno
    cases hno
  | some i =>
    obtain ⟨hi, hyes, -⟩ := List.findIdx?_eq_some_iff_getElem.1 hfind
    have hmem := List.getElem_mem hi
    have hsame := (hmatch _ hmem).1 hyes
    exact ⟨i, rfl, by rw [List.getElem?_eq_getElem hi, h.eq_of_session hmem he (hsame.trans hs.symm)]⟩

theorem VersionInv.session_of_find (h : VersionInv p.isIpv6 t) {i : Nat} (hfind : findTtlEntry t p = some i)
    (he : t.live[i]? = some e) : e.session = p.ttlSession := by
  obtain ⟨hi, hyes, -⟩ := List.findIdx?_eq_some_iff_getElem.1 hfind
  obtain ⟨hi', rfl⟩ := List.getElem?_eq_some_iff.1 he
  have hmem := List.getElem_mem hi
  rw [Bool.and_eq_true] at hyes
  exact (ttlMatches_iff_session (h.version _ hmem) (h.valid _ hmem).tcp).1 hyes.2

/-- The tracker is ready when the entry of the connection is established. -/
theorem VersionInv.ttlIsReady_iff (h : VersionInv p.isIpv6 t) :
    ttlIsReady t p = true ↔ ∃ e ∈ t.live, e.session = p.ttlSession ∧ e.isEstablished = true := by
  constructor
  · intro hready
    cases hfind : findTtlEntry t p with
    | none =>
      rw [ttlIsReady, hfind] at hready
      cases hready
    | some i =>
      obtain ⟨hi, -⟩ := List.findIdx?_eq_some_iff_getElem.1 hfind
      have hlive := List.getElem?_eq_getElem hi
      rw [ttlIsReady, hfind, Option.any_some, List.getD_eq_getElem?_getD, hlive, Option.getD_some] at hready
      exact ⟨_, List.getElem_mem hi, h.session_of_find hfind hlive, hready⟩
  · rintro ⟨e, he, hs, hest⟩
    obtain ⟨i, hfind, hlive⟩ := h.find he hs
    rw [ttlIsReady, hfind, Option.any_some, List.getD_eq_getElem?_getD, hlive, Option.getD_some]
    exact hest

theorem VersionInv.ttlGetDelta_eq (h : VersionInv p.isIpv6 t) (he : e ∈ t.live) (hs : e.session = p.ttlSession)
    (hest : e.isEstablished = true) : ttlGetDelta t p = e.ttlDelta.toNat := by
  obtain ⟨i, hfind, hlive⟩ := h.find he hs
  unfold ttlGetDelta
  simp only [hfind, List.getD_eq_getElem?_getD, hlive, Option.getD_some, hest, ↓reduceIte]

/-! ### One step -/

private theorem mem_set_of_ne {l : List TtlEntry} {i : Nat} {x y : TtlEntry} (he : e ∈ l) (hi : l[i]? = some x)
    (hne : e ≠ x) : e ∈ l.set i y := by
  obtain ⟨j, hj⟩ := List.mem_iff_getElem?.1 he
  have hij : i ≠ j := by
    rintro rfl
    exact hne (Option.some.inj (hj.symm.trans hi))
  exact List.mem_iff_getElem?.2 ⟨j, by rw [List.getElem?_set_ne hij, hj]⟩

/-- The entry of a packet that is tracked is updated. -/
theorem VersionInv.touched (h : VersionInv q.isIpv6 t) (hq : q.type = .ipv4Tcp ∨ q.type = .ipv6Tcp) (he : e ∈ t.live)
    (hs : e.session = q.ttlSession) (ttl : UInt8) (now now' : Int) :
    touchEntry e ttl now ∈ (ttlTrackUpdate t q ttl now now').2.live := by
  obtain ⟨i, hfind, hlive⟩ := h.find he hs
  have htype : ¬ (q.type ≠ .ipv4Tcp ∧ q.type ≠ .ipv6Tcp) := by tauto
  obtain ⟨hi, -⟩ := List.getElem?_eq_some_iff.1 hlive
  rw [ttlTrackUpdate, if_neg htype, hfind]
  simp only [List.getD_eq_getElem?_getD, hlive, Option.getD_some, live_setSlot]
  exact List.mem_set hi _

/-- An established entry of another connection stays as it is. -/
theorem VersionInv.untouched (h : VersionInv q.isIpv6 t) (he : e ∈ t.live) (hest : e.isEstablished = true)
    (hs : e.session ≠ q.ttlSession) : e ∈ (ttlTrackUpdate t q ttl now now').2.live := by
  rcases ttlTrackUpdate_cases t q ttl now now' with heq | ⟨i, x, hfind, hx, heq⟩ | ⟨-, hsize, heq⟩ |
    ⟨i, -, -, hold, -, heq⟩
  · rw [heq]
    exact he
  · rw [heq, live_setSlot]
    refine mem_set_of_ne he hx ?_
    rintro rfl
    exact hs (h.session_of_find hfind hx)
  · rw [heq, live_push hsize]
    exact List.mem_append_left _ he
  · -- the entry that makes room is still learning
    rcases oldestLearning_learning hold with hnone | ⟨x, hx, -, hlearning⟩
    · cases hnone
    · rw [heq, live_setSlot]
      refine mem_set_of_ne he hx ?_
      rintro rfl
      rw [hest] at hlearning
      cases hlearning

/-- The entry of a connection that the tracker is ready for may be counted, but stays established. -/
theorem VersionInv.keeps_established (h : VersionInv q.isIpv6 t) (he : e ∈ t.live) (hest : e.isEstablished = true)
    (ttl : UInt8) (now now' : Int) :
    ∃ f ∈ (ttlTrackUpdate t q ttl now now').2.live,
      f.session = e.session ∧ f.isEstablished = true ∧ f.ttlDelta = e.ttlDelta := by
  obtain ⟨hest', hdelta'⟩ := touchEntry_established hest ttl now
  by_cases hs : e.session = q.ttlSession
  · by_cases hq : q.type = .ipv4Tcp ∨ q.type = .ipv6Tcp
    · exact ⟨_, h.touched hq he hs ttl now now', session_touchEntry, hest', hdelta'⟩
    · have hsame : ttlTrackUpdate t q ttl now now' = (-1, t) := if_pos (not_or.1 hq)
      rw [hsame]
      exact ⟨e, he, rfl, hest, rfl⟩
  · exact ⟨e, h.untouched he hest hs, rfl, hest, rfl⟩

/-- Where the entries come from. -/
theorem VersionInv.origin (h : VersionInv q.isIpv6 t) (hf : f ∈ (ttlTrackUpdate t q ttl now now').2.live) :
    f ∈ t.live ∨ (∃ e ∈ t.live, (q.type = .ipv4Tcp ∨ q.type = .ipv6Tcp) ∧ e.session = q.ttlSession ∧
      f = touchEntry e ttl now) ∨ ∃ now₀, f = newEntry q ttl now₀ := by
  by_cases hq : q.type = .ipv4Tcp ∨ q.type = .ipv6Tcp
  · rcases ttlTrackUpdate_cases t q ttl now now' with heq | ⟨i, x, hfind, hx, heq⟩ | ⟨-, hsize, heq⟩ |
      ⟨i, -, -, -, -, heq⟩
    · rw [heq] at hf
      exact Or.inl hf
    · rw [heq, live_setSlot] at hf
      rcases List.mem_or_eq_of_mem_set hf with hmem | rfl
      · exact Or.inl hmem
      · exact Or.inr (Or.inl ⟨x, List.mem_of_getElem? hx, hq, h.session_of_find hfind hx, rfl⟩)
    · rw [heq, live_push hsize] at hf
      rcases List.mem_append.1 hf with hmem | hmem
      · exact Or.inl hmem
      · exact Or.inr (Or.inr ⟨now, List.mem_singleton.1 hmem⟩)
    · rw [heq, live_setSlot] at hf
      rcases List.mem_or_eq_of_mem_set hf with hmem | rfl
      · exact Or.inl hmem
      · exact Or.inr (Or.inr ⟨now', rfl⟩)
  · have hsame : ttlTrackUpdate t q ttl now now' = (-1, t) := if_pos (not_or.1 hq)
    rw [hsame] at hf
    exact Or.inl hf

theorem mem_cleanup (h : TtlInv t) :
    e ∈ (ttlTrackerCleanupExpired t now).2.live ↔ e ∈ t.live ∧ ttlExpired now e = false := by
  rw [(live_cleanupExpired h.size_le now).1, List.mem_filter, Bool.not_eq_true']

theorem VersionInv.step (h : VersionInv isIpv6 t) {op : TtlOp} (hop : op.OfVersion isIpv6) :
    VersionInv isIpv6 (ttlStep t op) where
  toTtlInv := h.toTtlInv.step op
  version := by
    cases op with
    | cleanupExpired now => exact fun e he => h.version e ((mem_cleanup h.toTtlInv).1 he).1
    | update q ttl now now' =>
      obtain rfl : q.isIpv6 = isIpv6 := hop
      intro f hf
      rcases h.origin hf with hmem | ⟨e, he, -, -, rfl⟩ | ⟨now₀, rfl⟩
      · exact h.version f hmem
      · obtain ⟨hsrc, hdst, -⟩ := touchEntry_endpoints e ttl now
        unfold TtlEntry.OfVersion
        rw [hsrc, hdst]
        exact h.version e he
      · intro h4
        simp only [newEntry, h4, Bool.false_eq_true, ↓reduceIte]
        exact ⟨rfl, rfl⟩

/-! ### Runs -/

theorem ttlRun_append (op : TtlOp) : ttlRun (ops ++ [op]) = ttlStep (ttlRun ops) op := by
  rw [ttlRun, List.foldl_append]
  rfl

private theorem lastSeen_append (p : Packet) (op : TtlOp) :
    lastSeen p (ops ++ [op]) = seenAfter p (lastSeen p ops) op := by
  rw [lastSeen, List.foldl_append]
  rfl

theorem versionInv_ttlRun (hops : ∀ op ∈ ops, op.OfVersion isIpv6) : VersionInv isIpv6 (ttlRun ops) := by
  induction ops using List.reverseRecOn with
  | nil => exact ⟨ttlInv_init, fun e he => nomatch he⟩
  | append_singleton ops op ih =>
    rw [ttlRun_append]
    exact (ih fun op' hop' => hops op' (List.mem_append_left _ hop')).step (hops op (by simp))

/-- An established entry was seen at the last packet of its connection. -/
theorem established_lastSeen (hops : ∀ op ∈ ops, op.OfVersion p.isIpv6) :
    ∀ e ∈ (ttlRun ops).live, e.session = p.ttlSession → e.isEstablished = true → e.lastSeen = lastSeen p ops := by
  induction ops using List.reverseRecOn with
  | nil => exact fun e he => nomatch he
  | append_singleton ops op ih =>
    have hops' : ∀ op ∈ ops, op.OfVersion p.isIpv6 := fun op' hop' => hops op' (List.mem_append_left _ hop')
    have hinv := versionInv_ttlRun hops'
    have hinv' := hinv.step (hops op (by simp))
    rw [ttlRun_append, lastSeen_append]
    intro f hf hs hest
    cases op with
    | cleanupExpired now => exact ih hops' f ((mem_cleanup hinv.toTtlInv).1 hf).1 hs hest
    | update q ttl now now' =>
      have hq : q.isIpv6 = p.isIpv6 := hops (.update q ttl now now') (by simp)
      rw [← hq] at hinv
      rcases hinv.origin hf with hmem | ⟨e, -, htype, hse, rfl⟩ | ⟨now₀, rfl⟩
      · by_cases hcount : (q.type = .ipv4Tcp ∨ q.type = .ipv6Tcp) ∧ q.ttlSession = p.ttlSession
        · -- the entry has been updated, and no other one is of this session
          have htouched := hinv.touched hcount.1 hmem (hs.trans hcount.2.symm) ttl now now'
          have heq := hinv'.eq_of_session hf htouched session_touchEntry.symm
          rw [seenAfter, if_pos hcount, heq, lastSeen_touchEntry]
        · rw [seenAfter, if_neg hcount]
          exact ih hops' f hmem hs hest
      · rw [session_touchEntry] at hs
        rw [seenAfter, if_pos ⟨htype, hse.symm.trans hs⟩, lastSeen_touchEntry]
      · cases hest

/-! ### Readiness -/

/-- The tracker is ready for the connection, with this delta. -/
def ReadyWith (t : TtlTable) (p : Packet) (delta : UInt8) : Prop :=
  ∃ e ∈ t.live, e.session = p.ttlSession ∧ e.isEstablished = true ∧ e.ttlDelta = delta

/-- A step keeps readiness and the delta, unless it is a cleanup for which the last packet is too long ago. -/
theorem readyWith_step {delta : UInt8} {op : TtlOp} (hops : ∀ op ∈ ops, op.OfVersion p.isIpv6)
    (hop : op.OfVersion p.isIpv6) (hready : ReadyWith (ttlRun ops) p delta)
    (hgap : ∀ now, op = .cleanupExpired now → now - lastSeen p ops ≤ 300) :
    ReadyWith (ttlRun (ops ++ [op])) p delta := by
  obtain ⟨e, he, hs, hest, hdelta⟩ := hready
  have hinv := versionInv_ttlRun hops
  rw [ttlRun_append]
  cases op with
  | cleanupExpired now =>
    have hseen := established_lastSeen hops e he hs hest
    have hfresh : ttlExpired now e = false := by
      have hle := hgap now rfl
      rw [ttlExpired, if_pos hest, hseen, decide_eq_false_iff_not, ttlEstablishedTimeout]
      omega
    exact ⟨e, (mem_cleanup hinv.toTtlInv).2 ⟨he, hfresh⟩, hs, hest, hdelta⟩
  | update q ttl now now' =>
    rw [← show q.isIpv6 = p.isIpv6 from hop] at hinv
    obtain ⟨f, hf, hfs, hfest, hfdelta⟩ := hinv.keeps_established he hest ttl now now'
    exact ⟨f, hf, hfs.trans hs, hfest, hfdelta.trans hdelta⟩

/-- A cleanup for which the last packet is too long ago ends readiness. -/
theorem gap_of_ready (hops : ∀ op ∈ ops, op.OfVersion p.isIpv6)
    (hafter : ttlIsReady (ttlRun (ops ++ [.cleanupExpired now])) p = true) : now - lastSeen p ops ≤ 300 := by
  have hinv := versionInv_ttlRun hops
  have hinv' := hinv.step (show TtlOp.OfVersion p.isIpv6 (.cleanupExpired now) from trivial)
  rw [ttlRun_append] at hafter
  obtain ⟨e, he, hs, hest⟩ := hinv'.ttlIsReady_iff.1 hafter
  obtain ⟨hmem, hfresh⟩ := (mem_cleanup hinv.toTtlInv).1 he
  rw [ttlExpired, if_pos hest, established_lastSeen hops e hmem hs hest, decide_eq_false_iff_not,
    ttlEstablishedTimeout] at hfresh
  omega

/-- Once the tracker is ready for a connection, it stays ready with the same delta through a run of packets of one IP
version and cleanups exactly if no cleanup comes more than 300 seconds after the last packet of the connection. -/
theorem ttl_stays_ready_iff (ops ops' : List TtlOp) (p : Packet) (hversion : ∀ op ∈ ops ++ ops', op.OfVersion p.isIpv6)
    (hready : ttlIsReady (ttlRun ops) p = true) :
    (∀ pre, pre <+: ops' → ttlIsReady (ttlRun (ops ++ pre)) p = true ∧
      ttlGetDelta (ttlRun (ops ++ pre)) p = ttlGetDelta (ttlRun ops) p) ↔
    ∀ pre now, pre ++ [.cleanupExpired now] <+: ops' → now - lastSeen p (ops ++ pre) ≤ 300 := by
  have hpre {pre : List TtlOp} (h : pre <+: ops') : ∀ op ∈ ops ++ pre, op.OfVersion p.isIpv6 := by
    intro op hop
    rcases List.mem_append.1 hop with hmem | hmem
    · exact hversion op (List.mem_append_left _ hmem)
    · exact hversion op (List.mem_append_right _ (h.subset hmem))
  constructor
  · intro hall pre now hle
    have hle' := (List.prefix_append pre _).trans hle
    refine gap_of_ready (hpre hle') ?_
    rw [List.append_assoc]
    exact (hall _ hle).1
  · intro hgap
    have hinv := versionInv_ttlRun (hpre (List.nil_prefix))
    rw [List.append_nil] at hinv
    obtain ⟨e, he, hs, hest⟩ := hinv.ttlIsReady_iff.1 hready
    have hrun (pre : List TtlOp) (hle : pre <+: ops') : ReadyWith (ttlRun (ops ++ pre)) p e.ttlDelta := by
      induction pre using List.reverseRecOn with
      | nil =>
        rw [List.append_nil]
        exact ⟨e, he, hs, hest, rfl⟩
      | append_singleton pre op ih =>
        have hle' := (List.prefix_append pre [op]).trans hle
        rw [← List.append_assoc]
        refine readyWith_step (hpre hle') (hpre hle op (by simp)) (ih hle') ?_
        rintro now rfl
        exact hgap pre now hle
    intro pre hle
    obtain ⟨f, hf, hsf, hestf, hdelta⟩ := hrun pre hle
    have hinv' := versionInv_ttlRun (hpre hle)
    refine ⟨hinv'.ttlIsReady_iff.2 ⟨f, hf, hsf, hestf⟩, ?_⟩
    rw [hinv'.ttlGetDelta_eq hf hsf hestf, hinv.ttlGetDelta_eq he hs hest, hdelta]

/-- Ten packets from port 2000 of one host to port 443 of another, at one time. -/
def readyOps : List TtlOp :=
  List.replicate 10
    (.update { packetInit with
      type := .ipv4Tcp, srcIp := Addr.ofWord 1, dstIp := Addr.ofWord 2, srcPort := 2000, dstPort := 443 } 64 100 100)

def readyPacket : Packet :=
  { packetInit with type := .ipv4Tcp, srcIp := Addr.ofWord 2, dstIp := Addr.ofWord 1, srcPort := 443, dstPort := 2000 }

theorem ttl_stays_ready_iff_ten :
    (∀ pre, pre <+: [.cleanupExpired 400] → ttlIsReady (ttlRun (readyOps ++ pre)) readyPacket = true ∧
      ttlGetDelta (ttlRun (readyOps ++ pre)) readyPacket = ttlGetDelta (ttlRun readyOps) readyPacket) ↔
    ∀ pre now, pre ++ [.cleanupExpired now] <+: [.cleanupExpired 400] →
      now - lastSeen readyPacket (readyOps ++ pre) ≤ 300 := by
  refine ttl_stays_ready_iff readyOps [.cleanupExpired 400] readyPacket (fun op hop => ?_) (by decide +kernel)
  rcases List.mem_append.1 hop with hmem | hmem
  · rw [List.eq_of_mem_replicate hmem]
    rfl
  · rw [List.mem_singleton.1 hmem]
    trivial

end GoodbyeDpi
