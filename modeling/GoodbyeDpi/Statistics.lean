import GoodbyeDpi.Verdict

/-!
# The statistics (`packet_process_callback` in `src/main.c`)

`packets_processed` and `bytes_processed` count every message that reaches `packet_process_callback`.
`packets_modified` is increased when `packet_process` returns 0, which is its report that nothing was modified; so it
is right only where as many packets are reported unmodified as modified.
-/

namespace GoodbyeDpi

open CSem Traced Access

/-- The messages that reach `packet_process_callback` one after the other. -/
def processMessages (cfg : Config) (nf : Netfilter) : List (Message × Env) → QueueState → CRun Buf QueueState
  | [], st => pure st
  | s :: steps, st => do
    let r ← packetProcessCallback cfg nf s.2 s.1 st
    processMessages cfg nf steps r.2

namespace Delivery

variable (d : Delivery) (cfg : Config)

/-- `packet_process` is called, and its result is `r`. -/
def reports (r : Int) : Bool :=
  decide (Accepted d.bytes) && (packetProcess cfg d.env d.packet).val.any fun result => result.1 == r

variable {d cfg}

theorem netfilterCallback_eq (cfg : Config) (h : d.bytes ≠ []) (st : QueueState) :
    netfilterCallback cfg .ready d.env d.message st = packetProcessCallback cfg .ready d.env d.message st := by
  have hpos : ¬ d.bytes.length = 0 := fun h0 => h (List.length_eq_zero_iff.1 h0)
  unfold netfilterCallback
  rw [d.toUint32_payload, if_neg hpos]
  rfl

/-- What `packet_process` reports, when it stays in range. -/
theorem reports_eq (h : d.bytes ≠ []) (hin : d.Inside cfg) (r : Int) :
    d.reports cfg r = (decide (Accepted d.bytes) && (if processModified cfg d.env d.packet then 1 else 0) == r) := by
  unfold reports
  by_cases hacc : Accepted d.bytes
  · have hval := val_of_obeys_eq (fun _ h => h) ((obeys_packetProcess (watches_inRange _) (watches_inRange _)
      d.packet_payloadLen).2 ⟨(hin h).2 hacc, rfl⟩)
    rw [hval]
    simp
  · simp [hacc]

/-- The counters after a message. -/
theorem counters_after (h : d.bytes ≠ []) (hin : d.Inside cfg) (st : QueueState) :
    (d.after cfg st).packetsProcessed = st.packetsProcessed + 1 ∧
    (d.after cfg st).bytesProcessed = st.bytesProcessed + UInt64.ofNat d.bytes.length ∧
    (d.after cfg st).packetsModified = st.packetsModified + UInt64.ofNat (if d.reports cfg 0 then 1 else 0) := by
  rw [reports_eq h hin]
  rcases d.after_cases cfg st with ⟨hnil, -⟩ | ⟨-, hacc, heq⟩ | ⟨-, -, hmod, heq⟩ | ⟨-, hacc, hmod, heq⟩
  · exact absurd hnil h
  · simp [heq, hacc, QueueState.countPacket]
  · simp [heq, hmod, QueueState.countPacket]
  · -- the verdict leaves the counters alone
    rw [heq]
    split
    · simp [hacc, hmod, QueueState.setVerdict, QueueState.countModified, QueueState.countPacket]
    · simp [hacc, hmod, QueueState.countModified, QueueState.countPacket]

end Delivery

section

variable {cfg : Config} {ds : List Delivery}

theorem handleMessages_eq (h : ∀ d ∈ ds, d.bytes ≠ []) (st : QueueState) :
    handleMessages cfg .ready (ds.map Delivery.step) st = processMessages cfg .ready (ds.map Delivery.step) st := by
  induction ds generalizing st with
  | nil => rfl
  | cons d ds ih =>
    have htail := ih fun d' hd' => h d' (List.mem_cons_of_mem d hd')
    have hstep := Delivery.netfilterCallback_eq cfg (h d List.mem_cons_self) st
    simp only [List.map_cons, handleMessages, processMessages, Delivery.step] at htail ⊢
    rw [hstep]
    simp only [htail]

/-- The counters after a run in range. -/
theorem counters_afterAll (h : ∀ d ∈ ds, d.bytes ≠ []) (hin : ∀ d ∈ ds, d.Inside cfg) (st : QueueState) :
    (afterAll cfg ds st).packetsProcessed = st.packetsProcessed + UInt64.ofNat ds.length ∧
    (afterAll cfg ds st).bytesProcessed = st.bytesProcessed + UInt64.ofNat (ds.map (·.bytes.length)).sum ∧
    (afterAll cfg ds st).packetsModified = st.packetsModified + UInt64.ofNat (ds.countP (·.reports cfg 0)) := by
  induction ds generalizing st with
  | nil => simp [afterAll]
  | cons d ds ih =>
    obtain ⟨hprocessed, hbytes, hmodified⟩ :=
      Delivery.counters_after (h d List.mem_cons_self) (hin d List.mem_cons_self) st
    obtain ⟨hprocessed', hbytes', hmodified'⟩ := ih (fun d' hd' => h d' (List.mem_cons_of_mem d hd'))
      (fun d' hd' => hin d' (List.mem_cons_of_mem d hd')) (d.after cfg st)
    change (afterAll cfg ds (d.after cfg st)).packetsProcessed = _ ∧
      (afterAll cfg ds (d.after cfg st)).bytesProcessed = _ ∧ (afterAll cfg ds (d.after cfg st)).packetsModified = _
    rw [hprocessed', hbytes', hmodified', hprocessed, hbytes, hmodified]
    refine ⟨?_, ?_, ?_⟩
    · rw [List.length_cons, Nat.add_comm, UInt64.ofNat_add, ← UInt64.add_assoc]
      rfl
    · rw [List.map_cons, List.sum_cons, UInt64.ofNat_add, ← UInt64.add_assoc]
    · rw [List.countP_cons, Nat.add_comm, UInt64.ofNat_add, ← UInt64.add_assoc]

/-- The number of messages that `packet_process` reports with `r`, by what it would do with them. -/
theorem countP_reports (h : ∀ d ∈ ds, d.bytes ≠ []) (hin : ∀ d ∈ ds, d.Inside cfg) (r : Int) :
    ds.countP (·.reports cfg r) = ds.countP fun d =>
      decide (Accepted d.bytes) && (if processModified cfg d.env d.packet then 1 else 0) == r := by
  apply List.countP_congr
  intro d hd
  rw [Delivery.reports_eq (h d hd) (hin d hd)]

end

/-- The statistics count what happened exactly when the run stays in range and `packet_process` reports as many
packets unmodified, modulo 2^64, as it reports modified. -/
theorem statistics_count_iff (cfg : Config) (ds : List Delivery) (h : ∀ d ∈ ds, d.bytes ≠ []) :
    ((processMessages cfg .ready (ds.map Delivery.step) .init).All InRange ∧
      ∃ st', (processMessages cfg .ready (ds.map Delivery.step) .init).val = some st' ∧
        st'.packetsProcessed = UInt64.ofNat ds.length ∧
        st'.bytesProcessed = UInt64.ofNat (ds.map (·.bytes.length)).sum ∧
        st'.packetsModified.toNat = ds.countP (·.reports cfg 1)) ↔
      (∀ d ∈ ds, d.Inside cfg) ∧
        (ds.countP fun d => decide (Accepted d.bytes) && !processModified cfg d.env d.packet) % 2 ^ 64 =
          ds.countP fun d => decide (Accepted d.bytes) && processModified cfg d.env d.packet := by
  rw [← handleMessages_eq h, ← obeys_iff_of_imp fun _ h => h, obeys_handleMessages]
  refine and_congr_right fun hin => ?_
  obtain ⟨hprocessed, hbytes, hmodified⟩ := counters_afterAll h hin .init
  have hinit : ∀ n : UInt64, 0 + n = n := UInt64.zero_add
  rw [hprocessed, hbytes, hmodified, countP_reports h hin, countP_reports h hin]
  simp only [QueueState.init, hinit, true_and, UInt64.toNat_ofNat']
  have hzero : ∀ b : Bool, ((if b then (1 : Int) else 0) == 0) = !b := by decide
  have hone : ∀ b : Bool, ((if b then (1 : Int) else 0) == 1) = b := by decide
  simp only [hzero, hone]

/-- A segment without data to port 22. -/
def sshSegment : Delivery where
  id := 8
  bytes := minimalHeaders 0 22
  size := by decide
  env := plainEnv

theorem statistics_count_iff_balanced :
    (∀ d ∈ [httpsSegment, sshSegment], d.bytes ≠ []) ∧ ∀ d ∈ [httpsSegment, sshSegment], d.Inside configInit := by
  have hbytes : ∀ d ∈ [httpsSegment, sshSegment], d.bytes ≠ [] := by decide
  refine ⟨hbytes, ((statistics_count_iff configInit [httpsSegment, sshSegment] hbytes).1 ⟨?_, ?_⟩).1⟩
  · unfold All
    decide +kernel
  · exact ⟨⟨[⟨8, 1, some (minimalHeaders 0 22)⟩], 2, 1, 80⟩, by decide +kernel, by decide +kernel⟩

/-- With the default configuration the segment is reported as modified, and is not counted. -/
theorem httpsSegment_not_counted :
    httpsSegment.bytes ≠ [] ∧ (processMessages configInit .ready [httpsSegment.step] .init).All InRange ∧
      ∃ st', (processMessages configInit .ready [httpsSegment.step] .init).val = some st' ∧
        st'.packetsModified.toNat ≠ [httpsSegment].countP (·.reports configInit 1) := by
  refine ⟨by decide, ?_, ⟨[], 1, 0, 40⟩, by decide, by decide⟩
  unfold All
  decide +kernel

end GoodbyeDpi
