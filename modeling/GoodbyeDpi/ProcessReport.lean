import GoodbyeDpi.Verdict

/-!
# What a report of "unmodified" means

`packet_process` returns 1 when an evasion step was applied and 0 otherwise.  Every helper that edits the payload in
place leaves it untouched on each path on which it reports failure, and every success is recorded.  So after a return
code of 0 the packet is the one that was handed over, and the verdict carries the bytes that were captured.  The
results are about the value of a run, and so about every run that stays in range.
-/

namespace GoodbyeDpi

open CSem Traced Access

/-! ### Edits in place -/

private theorem length_of_store {b b' bytes : List UInt8} {off : Nat}
    (h : (store Buf.payload b off bytes).val = some b') : b'.length = b.length := by
  obtain ⟨hin, hval⟩ := Option.ite_none_right_eq_some.1 h
  have := Option.some.inj hval
  subst this
  rcases hin with hnil | hroom
  · rw [List.length_eq_zero_iff.1 hnil, overwrite, List.append_nil, List.length_nil, Nat.add_zero,
      List.take_append_drop]
  · exact length_overwrite hroom

private theorem length_of_memmove {b b' : List UInt8} {dst src n : Nat}
    (h : (memmove Buf.payload b dst src n).val = some b') : b'.length = b.length := by
  obtain ⟨bytes, -, hstore⟩ := val_of_bind h
  exact length_of_store hstore

private theorem length_of_mixCaseFrom {off n i : Nat} {b b' : List UInt8}
    (h : (mixCaseFrom off n i b).val = some b') : b'.length = b.length := by
  induction n generalizing i b with
  | zero =>
    cases h
    rfl
  | succ n ih =>
    obtain ⟨c, -, h⟩ := val_of_bind h
    split at h
    · cases h
      rfl
    · obtain ⟨b₁, hstore, h⟩ := val_of_bind h
      rw [ih h, length_of_store hstore]

/-- The edit returns 0, or it returns -1 with the bytes unchanged; the buffer keeps its size. -/
def EditReports (edit : List UInt8 → Nat → CRun Buf (Int × List UInt8)) : Prop :=
  ∀ b n r, (edit b n).val = some r → r.2.length = b.length ∧ (r.1 = 0 ∨ r = (-1, b))

theorem editReports_applyHostMixedcase : EditReports applyHostMixedcase := by
  intro b n r h
  obtain ⟨pos, -, h⟩ := val_of_bind h
  cases pos with
  | none =>
    cases h
    exact ⟨rfl, Or.inr rfl⟩
  | some pos =>
    obtain ⟨valueStart, -, h⟩ := val_of_bind h
    obtain ⟨valueEnd, -, h⟩ := val_of_bind h
    split at h
    · obtain ⟨b', hmix, h⟩ := val_of_bind h
      cases h
      exact ⟨length_of_mixCaseFrom hmix, Or.inl rfl⟩
    · cases h
      exact ⟨rfl, Or.inr rfl⟩

theorem editReports_applyHostRemovespace : EditReports applyHostRemovespace := by
  intro b n r h
  obtain ⟨pos, -, h⟩ := val_of_bind h
  cases pos with
  | none =>
    cases h
    exact ⟨rfl, Or.inr rfl⟩
  | some pos =>
    obtain ⟨c, -, h⟩ := val_of_bind h
    split at h
    · obtain ⟨len, -, h⟩ := val_of_bind h
      obtain ⟨b', hmove, h⟩ := val_of_bind h
      cases h
      exact ⟨length_of_memmove hmove, Or.inl rfl⟩
    · cases h
      exact ⟨rfl, Or.inr rfl⟩

theorem editReports_applyAdditionalSpace : EditReports applyAdditionalSpace := by
  intro b n r h
  obtain ⟨pos, -, h⟩ := val_of_bind h
  cases pos with
  | none =>
    cases h
    exact ⟨rfl, Or.inr rfl⟩
  | some pos =>
    obtain ⟨len, -, h⟩ := val_of_bind h
    dsimp only at h
    split at h
    · obtain ⟨b₁, hmove, h⟩ := val_of_bind h
      obtain ⟨b₂, hstore, h⟩ := val_of_bind h
      cases h
      exact ⟨(length_of_store hstore).trans (length_of_memmove hmove), Or.inl rfl⟩
    · cases h
      exact ⟨rfl, Or.inr rfl⟩

/-! ### `packet_process` -/

/-- What the return code and the packet have to do with the packet `p` that was handed over: only the bytes of the
payload differ, its buffer has the same size, and with the return code 0 nothing differs. -/
structure Reports (p : Packet) (s : Int × Packet) : Prop where
  frame : s.2 = { p with payload := s.2.payload }
  size : s.2.payload.map List.length = p.payload.map List.length
  unmodified : s.1 = 0 → s.2 = p

private theorem reports_self (p : Packet) (code : Int) : Reports p (code, p) := ⟨rfl, rfl, fun _ => rfl⟩

private theorem Reports.mark {p : Packet} {s : Int × Packet} (h : Reports p s) : Reports p (1, s.2) :=
  ⟨h.frame, h.size, fun h1 => absurd (show (1 : Int) = 0 from h1) (by decide)⟩

private theorem Reports.editPayload {p : Packet} {s s' : Int × Packet} {on : Bool}
    {edit : List UInt8 → Nat → CRun Buf (Int × List UInt8)} (hedit : EditReports edit) (hs : Reports p s)
    (h : (editPayload on edit s).val = some s') : Reports p s' := by
  unfold GoodbyeDpi.editPayload at h
  split at h
  · rename_i b hb
    obtain ⟨r, hr, h⟩ := val_of_bind h
    obtain ⟨hlen, hcode⟩ := hedit b s.2.payloadLen r hr
    have := Option.some.inj h
    subst this
    have hsize : (some r.2).map List.length = p.payload.map List.length := by
      rw [← hs.size, hb, Option.map_some, Option.map_some, hlen]
    refine ⟨?_, hsize, ?_⟩
    · have hframe := hs.frame
      simp only at hframe ⊢
      rw [hframe]
    · intro hzero
      rcases hcode with h0 | hsame
      · simp [h0] at hzero
      · -- a failed edit leaves the bytes, so the packet is the one before the edit
        rw [hsame] at hzero ⊢
        have hpacket : ({ s.2 with payload := some b } : Packet) = s.2 := by rw [← hb]
        rw [hpacket]
        exact hs.unmodified (by simpa using hzero)
  · cases h
    exact hs

private theorem Reports.fragmentStep {p : Packet} {s : Int × Packet} (hs : Reports p s) (size : UInt32) :
    Reports p (fragmentStep size s) := by
  unfold GoodbyeDpi.fragmentStep
  split
  · exact hs.mark
  · exact hs

theorem reports_packetProcess {cfg : Config} {env : Env} {p : Packet} {out : Int × Packet}
    (h : (packetProcess cfg env p).val = some out) : Reports p out := by
  unfold packetProcess at h
  split at h
  · cases h
    exact reports_self p 0
  · obtain ⟨http, -, h⟩ := val_of_bind h
    split at h
    · obtain ⟨s₁, h₁, h⟩ := val_of_bind h
      obtain ⟨s₂, h₂, h⟩ := val_of_bind h
      obtain ⟨s₃, h₃, h⟩ := val_of_bind h
      cases h
      have hs₁ := (reports_self p 0).editPayload editReports_applyHostMixedcase h₁
      have hs₂ := hs₁.editPayload editReports_applyHostRemovespace h₂
      have hs₃ := hs₂.editPayload editReports_applyAdditionalSpace h₃
      exact hs₃.fragmentStep cfg.httpFragmentSize
    · unfold processNotHttp at h
      split at h
      · dsimp only at h
        split at h
        · obtain ⟨result, -, h⟩ := val_of_bind h
          have := Option.some.inj h
          subst this
          split
          · exact reports_self p 1
          · exact (reports_self p 0).fragmentStep cfg.httpsFragmentSize
        · cases h
          exact (reports_self p 0).fragmentStep cfg.httpsFragmentSize
      · cases h
        exact reports_self p 0

/-! ### The verdict -/

/-- A verdict that is sent while a message is handled in range carries the bytes of the message. -/
private theorem Delivery.verdicts_after (d : Delivery) (cfg : Config) (st : QueueState) :
    ∀ call ∈ (d.after cfg st).verdicts, call ∈ st.verdicts ∨ call.id = d.id ∧ call.data.getD [] = d.bytes := by
  have hsent : ∀ (st' : QueueState) (data : Option (List UInt8)), st'.verdicts = st.verdicts → data.getD [] = d.bytes →
      ∀ call ∈ (st'.setVerdict d.id nfAccept data).verdicts,
        call ∈ st.verdicts ∨ call.id = d.id ∧ call.data.getD [] = d.bytes := by
    intro st' data hst hdata call hcall
    rw [QueueState.setVerdict, hst] at hcall
    rcases List.mem_append.1 hcall with hold | hnew
    · exact Or.inl hold
    · rw [List.mem_singleton.1 hnew]
      exact Or.inr ⟨rfl, hdata⟩
  rcases d.after_cases cfg st with ⟨hnil, heq⟩ | ⟨-, -, heq⟩ | ⟨-, -, -, heq⟩ | ⟨-, -, -, heq⟩
  · rw [heq]
    exact hsent st none rfl hnil.symm
  · rw [heq]
    exact fun call hcall => Or.inl hcall
  · rw [heq]
    exact fun call hcall => Or.inl hcall
  · rw [heq]
    split
    · exact hsent _ (some d.bytes) rfl rfl
    · exact fun call hcall => Or.inl hcall

/-- Every run of `packet_process` with a result changes no field of the packet but the bytes of the payload, and
nothing at all when it returns 0; the verdicts that are sent while a message is handled in range carry the bytes that
were captured. -/
theorem packetProcess_unmodified (cfg : Config) :
    (∀ env p out, (packetProcess cfg env p).val = some out →
        out.2 = { p with payload := out.2.payload } ∧
          out.2.payload.map List.length = p.payload.map List.length ∧ (out.1 = 0 → out.2 = p)) ∧
      (∀ (d : Delivery) (st : QueueState) out, (netfilterCallback cfg .ready d.env d.message st).All InRange →
        (netfilterCallback cfg .ready d.env d.message st).val = some out →
        ∀ call ∈ out.2.verdicts, call ∈ st.verdicts ∨ call.id = d.id ∧ call.data.getD [] = d.bytes) := by
  constructor
  · intro env p out h
    have hreports := reports_packetProcess h
    exact ⟨hreports.frame, hreports.size, hreports.unmodified⟩
  · intro d st out hin h
    have hinside : d.Inside cfg := (d.obeys_netfilterCallback (Q := fun _ => True)).1 (all_iff_obeys.1 hin) |>.1
    have hafter : Obeys InRange (netfilterCallback cfg .ready d.env d.message st) (fun r => r.2 = d.after cfg st) :=
      (d.obeys_netfilterCallback (Q := fun s => s = d.after cfg st)).2 ⟨hinside, rfl⟩
    rw [hafter.2 out h]
    exact d.verdicts_after cfg st

/-- A request without a space after `Host:`, which is to be removed. -/
def spacelessRequest : Packet :=
  { packetInit with
    type := .ipv4TcpData
    dstPort := 80
    payload := some (ascii "GET / HTTP/1.1\r\nHost:a.b\r\n\r\n" ++ [0])
    payloadLen := 29 }

/-- An IPv4 header alone, with a protocol that the parser does not know. -/
def bareHeader : Delivery where
  id := 7
  bytes := [0x45, 0, 0, 20, 0, 0, 0, 0, 64, 1, 0, 0, 10, 0, 0, 1, 10, 0, 0, 2]
  size := by decide
  env := plainEnv

theorem packetProcess_unmodified_samples :
    (∃ out, (packetProcess { configInit with hostRemovespace := true, httpFragmentSize := 0 } plainEnv
        spacelessRequest).val = some out ∧ out.2 = spacelessRequest) ∧
      ∀ out, (netfilterCallback configInit .ready plainEnv bareHeader.message .init).val = some out →
        ∀ call ∈ out.2.verdicts, call ∈ [] ∨ call.id = 7 ∧ call.data.getD [] = bareHeader.bytes := by
  constructor
  · have hrun : (packetProcess { configInit with hostRemovespace := true, httpFragmentSize := 0 } plainEnv
        spacelessRequest).val = some (0, spacelessRequest) := by decide +kernel
    exact ⟨_, hrun, ((packetProcess_unmodified _).1 plainEnv spacelessRequest _ hrun).2.2 rfl⟩
  · intro out hout
    exact (packetProcess_unmodified configInit).2 bareHeader .init out (by unfold Traced.All; decide +kernel) hout

end GoodbyeDpi
