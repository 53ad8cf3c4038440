import GoodbyeDpi.ClientHello

/-!
# The walk over the extensions

The extension block as a sequence of records, each a type, a length and a body.  The walk of `evasion_extract_sni`
stops at the first record of type 0 or at the first record that is truncated, reads nothing outside the block, and its
result is that of `parse_sni_extension` on the body it has found.
-/

namespace GoodbyeDpi

open CSem Traced Access

/-! ### Records -/

/-- A record of the extension block. -/
def extensionRecord (type : UInt16) (body : List UInt8) : List UInt8 := beBytes 2 type.toNat ++ tlsVector 2 body

theorem extensionRecord_eq (type : UInt16) (body : List UInt8) :
    extensionRecord type body = UInt8.ofNat (type.toNat / 256) :: UInt8.ofNat type.toNat ::
      UInt8.ofNat (body.length / 256) :: UInt8.ofNat body.length :: body := rfl

theorem length_extensionRecord (type : UInt16) (body : List UInt8) :
    (extensionRecord type body).length = body.length + 4 := by
  rw [extensionRecord_eq]
  rfl

/-- Two bytes in network byte order. -/
private theorem be16_bytes {v : Nat} (h : v < 65536) :
    (UInt8.ofNat (v / 256)).toNat * 256 + (UInt8.ofNat v).toNat = v := by
  rw [UInt8.toNat_ofNat', UInt8.toNat_ofNat']
  omega

theorem be16At_record_type (type : UInt16) (body rest : List UInt8) :
    be16At (extensionRecord type body ++ rest) 0 = type.toNat := by
  rw [extensionRecord_eq]
  exact be16_bytes type.toNat_lt

theorem be16At_record_length (type : UInt16) {body : List UInt8} (rest : List UInt8) (h : body.length < 65536) :
    be16At (extensionRecord type body ++ rest) 2 = body.length := by
  rw [extensionRecord_eq]
  exact be16_bytes h

/-- A record can be read off the front of a block in one way only. -/
theorem extensionRecord_append_inj {type type' : UInt16} {body body' rest rest' : List UInt8}
    (hbody : body.length < 65536) (hbody' : body'.length < 65536)
    (h : extensionRecord type body ++ rest = extensionRecord type' body' ++ rest') :
    type = type' ∧ body = body' ∧ rest = rest' := by
  have htype : type.toNat = type'.toNat := by
    rw [← be16At_record_type type body rest, h, be16At_record_type]
  have hlen : body.length = body'.length := by
    rw [← be16At_record_length type rest hbody, h, be16At_record_length type' rest' hbody']
  obtain ⟨hrecord, hrest⟩ := List.append_inj h (by rw [length_extensionRecord, length_extensionRecord, hlen])
  rw [extensionRecord_eq, extensionRecord_eq] at hrecord
  exact ⟨UInt16.toNat.inj htype, (List.cons.inj (List.cons.inj (List.cons.inj (List.cons.inj hrecord).2).2).2).2, hrest⟩

/-- A block that is long enough for its first header and body starts with a record. -/
theorem exists_record {E : List UInt8} (h4 : 4 ≤ E.length) (hfit : 4 + be16At E 2 ≤ E.length) :
    ∃ type body rest, E = extensionRecord type body ++ rest ∧ body.length < 65536 := by
  obtain ⟨a, b, c, d, tail, rfl⟩ : ∃ a b c d tail, E = a :: b :: c :: d :: tail := by
    rcases E with _ | ⟨a, _ | ⟨b, _ | ⟨c, _ | ⟨d, tail⟩⟩⟩⟩
    · simp at h4
    · simp at h4
    · simp at h4
    · simp at h4
    · exact ⟨a, b, c, d, tail, rfl⟩
  have hlen : be16At (a :: b :: c :: d :: tail) 2 = c.toNat * 256 + d.toNat := rfl
  have hbytes : ∀ x y : UInt8, UInt8.ofNat ((x.toNat * 256 + y.toNat) / 256) = x ∧
      UInt8.ofNat (x.toNat * 256 + y.toNat) = y := by
    intro x y
    have hx := x.toNat_lt
    have hy := y.toNat_lt
    refine ⟨UInt8.toNat.inj ?_, UInt8.toNat.inj ?_⟩
    · rw [UInt8.toNat_ofNat']
      omega
    · rw [UInt8.toNat_ofNat']
      omega
  have ha := a.toNat_lt
  have hb := b.toNat_lt
  have hc := c.toNat_lt
  have hd := d.toNat_lt
  have hbody : (tail.take (c.toNat * 256 + d.toNat)).length = c.toNat * 256 + d.toNat := by
    simp only [hlen, List.length_cons] at hfit
    rw [List.length_take]
    omega
  have htype : (UInt16.ofNat (a.toNat * 256 + b.toNat)).toNat = a.toNat * 256 + b.toNat := by
    rw [UInt16.toNat_ofNat']
    omega
  refine ⟨UInt16.ofNat (a.toNat * 256 + b.toNat), tail.take (c.toNat * 256 + d.toNat),
    tail.drop (c.toNat * 256 + d.toNat), ?_, by omega⟩
  rw [extensionRecord_eq, hbody, htype, (hbytes a b).1, (hbytes a b).2, (hbytes c d).1, (hbytes c d).2]
  simp

/-! ### The first server name -/

/-- Walking the block record by record reaches a record of type 0 with the body `b`, after records of other types. -/
def FirstServerName (E b : List UInt8) : Prop :=
  ∃ (before : List TlsExtension) (rest : List UInt8), b.length < 65536 ∧
    E = before.flatMap TlsExtension.encode ++ extensionRecord 0 b ++ rest

theorem firstServerName_record {type : UInt16} {body rest b : List UInt8} (hbody : body.length < 65536) :
    FirstServerName (extensionRecord type body ++ rest) b ↔
      (type = 0 ∧ b = body) ∨ (type ≠ 0 ∧ FirstServerName rest b) := by
  constructor
  · rintro ⟨before, rest', hb, hE⟩
    cases before with
    | nil =>
      obtain ⟨rfl, rfl, -⟩ := extensionRecord_append_inj hbody hb hE
      exact Or.inl ⟨rfl, rfl⟩
    | cons e es =>
      simp only [List.flatMap_cons, List.append_assoc] at hE
      obtain ⟨rfl, -, rfl⟩ := extensionRecord_append_inj hbody e.body_lt hE
      exact Or.inr ⟨e.type_ne, es, rest', hb, by rw [List.append_assoc]⟩
  · rintro (⟨rfl, rfl⟩ | ⟨hne, before, rest', hb, rfl⟩)
    · exact ⟨[], rest, hbody, rfl⟩
    · refine ⟨⟨type, body, hne, hbody⟩ :: before, rest', hb, ?_⟩
      rw [List.flatMap_cons, List.append_assoc, List.append_assoc, List.append_assoc]
      rfl

/-- A block with a server name starts with a record. -/
theorem FirstServerName.starts {E b : List UInt8} (h : FirstServerName E b) :
    4 ≤ E.length ∧ 4 + be16At E 2 ≤ E.length := by
  have hrecord : ∀ {type : UInt16} {body rest : List UInt8}, body.length < 65536 →
      4 ≤ (extensionRecord type body ++ rest).length ∧
        4 + be16At (extensionRecord type body ++ rest) 2 ≤ (extensionRecord type body ++ rest).length := by
    intro type body rest hbody
    rw [be16At_record_length type rest hbody, List.length_append, length_extensionRecord]
    omega
  obtain ⟨before, rest, hb, rfl⟩ := h
  cases before with
  | nil => exact hrecord hb
  | cons e es =>
    rw [List.flatMap_cons, List.append_assoc, List.append_assoc]
    exact hrecord e.body_lt

/-! ### The body of the extension -/

/-- The body names a host, in a form that `parse_sni_extension` accepts for a buffer of `c` bytes. -/
def NamesHost (b : List UInt8) (c : Nat) : Prop :=
  5 ≤ b.length ∧ byteAt b 2 = 0 ∧ be16At b 3 ≤ b.length - 5 ∧ be16At b 3 < c

instance (b : List UInt8) (c : Nat) : Decidable (NamesHost b c) := inferInstanceAs (Decidable (_ ∧ _))

/-- The buffer with the host name of the body and a NUL at its start. -/
def withHostName (b hostname : List UInt8) : List UInt8 :=
  (b.drop 5).take (be16At b 3) ++ 0 :: hostname.drop (be16At b 3 + 1)

/-- The result for an extension with the body `b`. -/
def sniOutcome (b hostname : List UInt8) : Int × List UInt8 :=
  if NamesHost b hostname.length then (0, withHostName b hostname) else (-1, hostname)

private theorem overwrite_name (name hostname : List UInt8) :
    overwrite (overwrite hostname 0 name) name.length [0] = name ++ 0 :: hostname.drop (name.length + 1) := by
  have hfirst : overwrite hostname 0 name = name ++ hostname.drop name.length := by simp [overwrite]
  rw [hfirst, ← Nat.add_zero name.length, overwrite_append]
  simp [overwrite]

section

variable {pre b post hostname : List UInt8} {lo hi : Nat}

theorem obeys_parseSniExtension (hb : b.length < 65536) (hhost : 0 < hostname.length) (hlo : lo ≤ pre.length)
    (hhi : pre.length + b.length ≤ hi) (hcap : hi ≤ (pre ++ (b ++ post)).length) :
    Obeys (Within .tlsData lo hi) (parseSniExtension (pre ++ (b ++ post)) pre.length b.length hostname) fun r =>
      r = sniOutcome b hostname := by
  unfold parseSniExtension sniOutcome
  by_cases h5 : b.length < 5
  · have hno : ¬ NamesHost b hostname.length := fun h => by have := h.1; omega
    rw [if_pos (Or.inl h5), if_neg hno, obeys_pure]
  have hsize : b.length < sizeMod := by unfold sizeMod; omega
  -- the fields of the body, where the code reads them
  have htype : byteAt (pre ++ (b ++ post)) (pre.length + 2) = byteAt b 2 := by
    rw [byteAt_append_right, byteAt_append_left (by omega)]
  have hname : be16At (pre ++ (b ++ post)) (pre.length + 3) = be16At b 3 := by
    unfold be16At
    rw [Nat.add_assoc, byteAt_append_right, byteAt_append_right, byteAt_append_left (by omega),
      byteAt_append_left (by omega)]
  rw [if_neg (by omega), obeys_bind, obeys_subSize, wrapSub_of_le hsize (by omega)]
  refine ⟨within_sub (by omega), ?_⟩
  rw [if_neg (by omega), obeys_bind,
    obeys_loadByte_of (by omega) (within_read (by omega) (by omega) hcap), htype]
  by_cases h0 : byteAt b 2 = 0
  swap
  · have hno : ¬ NamesHost b hostname.length := fun h => h0 h.2.1
    rw [if_pos h0, if_neg hno, obeys_pure]
  rw [if_neg (by omega), obeys_bind, obeys_loadBe16_of (by omega) (within_read (by omega) (by omega) hcap)
    (within_read (by omega) (by omega) hcap), hname, obeys_bind, obeys_subSize, wrapSub_of_le (by omega) (by omega)]
  refine ⟨within_sub (by omega), ?_⟩
  by_cases hfits : b.length - 2 - 3 < be16At b 3 ∨ be16At b 3 ≥ hostname.length
  · have hno : ¬ NamesHost b hostname.length := fun h => by
      have h1 := h.2.2.1
      have h2 := h.2.2.2
      omega
    rw [if_pos hfits, if_neg hno, obeys_pure]
  have hyes : NamesHost b hostname.length := ⟨by omega, h0, by omega, by omega⟩
  have hslice : ((pre ++ (b ++ post)).drop (pre.length + 5)).take (be16At b 3) = (b.drop 5).take (be16At b 3) := by
    rw [List.drop_length_add_append, List.drop_append_of_le_length (by omega),
      List.take_append_of_le_length (by rw [List.length_drop]; omega)]
  have hlen : ((b.drop 5).take (be16At b 3)).length = be16At b 3 := by
    rw [List.length_take, List.length_drop]
    omega
  rw [if_neg hfits, if_pos hyes, obeys_bind,
    obeys_slice_of (by omega) (within_read (by omega) (by omega) hcap), hslice, obeys_bind,
    obeys_store_of (by omega) (within_write (by decide) (by omega)), obeys_bind]
  have hlen' : (overwrite hostname 0 ((b.drop 5).take (be16At b 3))).length = hostname.length :=
    length_overwrite (by omega)
  rw [obeys_store_of (by rw [hlen', List.length_singleton]; omega)
    (within_write (by decide) (by rw [hlen', List.length_singleton]; omega)), obeys_pure]
  have hout := overwrite_name ((b.drop 5).take (be16At b 3)) hostname
  rw [hlen] at hout
  rw [hout]
  rfl

/-! ### The walk -/

/-- What the walk returns for the block `E`. -/
def WalkResult (E hostname : List UInt8) (r : Int × List UInt8) : Prop :=
  (∀ b, FirstServerName E b → r = sniOutcome b hostname) ∧ ((∀ b, ¬ FirstServerName E b) → r = (-1, hostname))

theorem walkResult_serverName {body rest : List UInt8} (hbody : body.length < 65536) :
    WalkResult (extensionRecord 0 body ++ rest) hostname (sniOutcome body hostname) := by
  have hfirst : FirstServerName (extensionRecord 0 body ++ rest) body :=
    (firstServerName_record hbody).2 (Or.inl ⟨rfl, rfl⟩)
  refine ⟨?_, fun hnone => absurd hfirst (hnone body)⟩
  intro b hb
  rcases (firstServerName_record hbody).1 hb with ⟨-, rfl⟩ | ⟨hne, -⟩
  · rfl
  · exact absurd rfl hne

/-- A record of another type is passed over. -/
theorem walkResult_other {type : UInt16} {body rest : List UInt8} {r : Int × List UInt8} (htype : type ≠ 0)
    (hbody : body.length < 65536) (h : WalkResult rest hostname r) :
    WalkResult (extensionRecord type body ++ rest) hostname r := by
  have hiff : ∀ b, FirstServerName (extensionRecord type body ++ rest) b ↔ FirstServerName rest b := by
    intro b
    rw [firstServerName_record hbody]
    simp [htype]
  refine ⟨fun b hb => h.1 b ((hiff b).1 hb), fun hnone => h.2 fun b hb => hnone b ((hiff b).2 hb)⟩

section

variable {E : List UInt8} {fuel : Nat} {Q : Option (Int × List UInt8) → Prop}

/-- A walk that has ended has the result for the block `E`. -/
private def Walked (E hostname : List UInt8) (o : Option (Int × List UInt8)) : Prop :=
  ∀ r, o = some r → WalkResult E hostname r

private theorem walked_some {r : Int × List UInt8} : Walked E hostname (some r) ↔ WalkResult E hostname r :=
  ⟨fun h => h r rfl, fun h _ hr => Option.some.inj hr ▸ h⟩

/-- A round reads the header of the next record and no more. -/
private theorem obeys_round (hlo : lo ≤ pre.length) (hhi : pre.length + E.length = hi) (h4 : 4 ≤ E.length) :
    Obeys (Within .tlsData lo hi) (sniWalk (pre ++ (E ++ post)) hi hostname (fuel + 1) pre.length) Q ↔
      (E.length < 4 + be16At E 2 → Q (some (-1, hostname))) ∧
      (4 + be16At E 2 ≤ E.length →
        (be16At E 0 = 0 → Obeys (Within .tlsData lo hi)
          (parseSniExtension (pre ++ (E ++ post)) (pre.length + 4) (be16At E 2) hostname) fun r => Q (some r)) ∧
        (be16At E 0 ≠ 0 → Obeys (Within .tlsData lo hi)
          (sniWalk (pre ++ (E ++ post)) hi hostname fuel (pre.length + 4 + be16At E 2)) Q)) := by
  have hlen : (pre ++ (E ++ post)).length = pre.length + E.length + post.length := by
    simp only [List.length_append]
    omega
  have hat : ∀ {i}, i < E.length → byteAt (pre ++ (E ++ post)) (pre.length + i) = byteAt E i := by
    intro i hi
    rw [byteAt_append_right, byteAt_append_left hi]
  have htype : be16At (pre ++ (E ++ post)) pre.length = be16At E 0 := by
    unfold be16At
    rw [← Nat.add_zero pre.length, hat (by omega), Nat.add_assoc, hat (by omega)]
  have hlength : be16At (pre ++ (E ++ post)) (pre.length + 2) = be16At E 2 := by
    unfold be16At
    rw [hat (by omega), Nat.add_assoc, hat (by omega)]
  have hread : ∀ off, pre.length ≤ off → off + 1 ≤ hi →
      Within Buf.tlsData lo hi (.read .tlsData off 1 (pre ++ (E ++ post)).length) := by
    intro off h1 h2
    exact within_read (by omega) h2 (by omega)
  rw [sniWalk, if_neg (by omega), obeys_bind,
    obeys_loadBe16_of (by omega) (hread _ (by omega) (by omega)) (hread _ (by omega) (by omega)), obeys_bind,
    obeys_loadBe16_of (by omega) (hread _ (by omega) (by omega)) (hread _ (by omega) (by omega)), htype, hlength,
    obeys_ite, obeys_ite, obeys_pure, obeys_bind]
  simp only [obeys_pure]
  refine and_congr (imp_congr_left (by omega)) (imp_congr_left (by omega))

section

variable {body rest : List UInt8}

/-- The walk ends at the first record of type 0. -/
private theorem obeys_serverName (hbody : body.length < 65536) (hlo : lo ≤ pre.length) (hhost : 0 < hostname.length)
    (hhi : pre.length + (extensionRecord 0 body ++ rest).length = hi) :
    Obeys (Within .tlsData lo hi)
      (parseSniExtension (pre ++ (extensionRecord 0 body ++ rest ++ post)) (pre.length + 4) body.length hostname)
      (WalkResult (extensionRecord 0 body ++ rest) hostname) := by
  have hsplit : pre ++ (extensionRecord 0 body ++ rest ++ post) =
      pre ++ (extensionRecord 0 body).take 4 ++ (body ++ (rest ++ post)) := by
    rw [extensionRecord_eq]
    simp
  have hpre : (pre ++ (extensionRecord 0 body).take 4).length = pre.length + 4 := by
    rw [extensionRecord_eq]
    simp
  rw [List.length_append, length_extensionRecord] at hhi
  rw [hsplit, ← hpre]
  apply (obeys_parseSniExtension hbody hhost (by omega) (by omega) ?_).mono
  · rintro r rfl
    exact walkResult_serverName hbody
  · rw [List.length_append, hpre, List.length_append, List.length_append]
    omega

/-- The walk passes over a record of another type. -/
private theorem obeys_otherRecord {type : UInt16} (hbody : body.length < 65536) (htype : type ≠ 0)
    (h : Obeys (Within .tlsData lo hi)
      (sniWalk (pre ++ extensionRecord type body ++ (rest ++ post)) hi hostname fuel
        (pre ++ extensionRecord type body).length) (Walked rest hostname)) :
    Obeys (Within .tlsData lo hi)
      (sniWalk (pre ++ (extensionRecord type body ++ rest ++ post)) hi hostname fuel (pre.length + 4 + body.length))
      (Walked (extensionRecord type body ++ rest) hostname) := by
  have hpre : (pre ++ extensionRecord type body).length = pre.length + 4 + body.length := by
    rw [List.length_append, length_extensionRecord]
    omega
  have hsplit : pre ++ (extensionRecord type body ++ rest ++ post) =
      pre ++ extensionRecord type body ++ (rest ++ post) := by
    simp only [List.append_assoc]
  rw [hsplit, ← hpre]
  apply h.mono
  intro o ho r hr
  exact walkResult_other htype hbody (ho r hr)

end

/-- The walk over the block `E` inside a record reads `E` only.  The induction moves the records that have been passed
to the bytes before the block. -/
theorem obeys_sniWalk (hhost : 0 < hostname.length) (hlo : lo ≤ pre.length) (hhi : pre.length + E.length = hi) :
    Obeys (Within .tlsData lo hi) (sniWalk (pre ++ (E ++ post)) hi hostname fuel pre.length) fun o =>
      ∀ r, o = some r → WalkResult E hostname r := by
  change Obeys _ _ (Walked E hostname)
  have hend : ∀ {E}, (∀ b, ¬ FirstServerName E b) → Walked E hostname (some (-1, hostname)) := by
    intro E hnone
    exact walked_some.2 ⟨fun b hb => absurd hb (hnone b), fun _ => rfl⟩
  induction fuel generalizing pre E with
  | zero =>
    rw [sniWalk]
    split
    · rw [obeys_pure]
      apply hend
      intro b hb
      have h4 := hb.starts.1
      omega
    · rw [obeys_pure]
      rintro r ⟨⟩
  | succ fuel ih =>
    by_cases h4 : 4 ≤ E.length
    swap
    · -- the end of the block, or less than a header
      rw [sniWalk, if_pos (by omega), obeys_pure]
      apply hend
      intro b hb
      exact h4 hb.starts.1
    rw [obeys_round hlo hhi h4]
    refine ⟨?_, ?_⟩
    · intro htrunc
      apply hend
      intro b hb
      have := hb.starts.2
      omega
    · intro hfit
      obtain ⟨type, body, rest, rfl, hbody⟩ := exists_record h4 hfit
      have hlen : (extensionRecord type body ++ rest).length = body.length + 4 + rest.length := by
        rw [List.length_append, length_extensionRecord]
      have hpre : (pre ++ extensionRecord type body).length = pre.length + (body.length + 4) := by
        rw [List.length_append, length_extensionRecord]
      rw [be16At_record_type, be16At_record_length type rest hbody]
      refine ⟨?_, ?_⟩
      · intro h0
        have htype : type = 0 := UInt16.toNat.inj h0
        subst htype
        exact (obeys_serverName hbody hlo hhost hhi).mono fun r hr => walked_some.2 hr
      · intro hne
        have htype : type ≠ 0 := by
          rintro rfl
          exact hne rfl
        exact obeys_otherRecord hbody htype (ih (by omega) (by omega))

end

end

/-! ### Main result -/

/-- The walk over an extension block `E` in a record ends, whatever the number of rounds it may take, reads nothing
outside `E`, and returns 0 exactly when the first server name of `E` names a host that fits the buffer; then the
buffer holds that name and a NUL, and otherwise it is unchanged. -/
theorem sniWalk_first_server_name (pre E post hostname : List UInt8) (hhost : 0 < hostname.length) (fuel : Nat)
    (hfuel : E.length ≤ fuel) :
    (sniWalk (pre ++ E ++ post) (pre.length + E.length) hostname fuel pre.length).All
      (Within .tlsData pre.length (pre.length + E.length)) ∧
    ∃ r out, (sniWalk (pre ++ E ++ post) (pre.length + E.length) hostname fuel pre.length).val = some (some (r, out)) ∧
      (r = 0 ↔ ∃ b, FirstServerName E b ∧ NamesHost b hostname.length) ∧
      (∀ b, FirstServerName E b → NamesHost b hostname.length →
        out = (b.drop 5).take (be16At b 3) ++ 0 :: hostname.drop (be16At b 3 + 1)) ∧
      (r ≠ 0 → r = -1 ∧ out = hostname) := by
  have hwalk : Obeys (Within .tlsData pre.length (pre.length + E.length))
      (sniWalk (pre ++ (E ++ post)) (pre.length + E.length) hostname fuel pre.length) fun o =>
        ∀ r, o = some r → WalkResult E hostname r :=
    obeys_sniWalk hhost (Nat.le_refl _) rfl
  have hends : (sniWalk (pre ++ (E ++ post)) (pre.length + E.length) hostname fuel pre.length).val ≠ some none :=
    sniWalk_ends (Nat.add_le_add_left hfuel _)
  rw [List.append_assoc]
  obtain ⟨hall, o, hval, hresult⟩ := (obeys_iff_of_imp fun e he => inRange_of_ok e he.1).1 hwalk
  obtain _ | ⟨r, out⟩ := o
  · exact absurd hval hends
  obtain ⟨hsome, hnone⟩ := hresult _ rfl
  refine ⟨hall, r, out, hval, ?_⟩
  by_cases hfirst : ∃ b, FirstServerName E b ∧ NamesHost b hostname.length
  · obtain ⟨b, hb, hnames⟩ := hfirst
    have hout := hsome b hb
    rw [sniOutcome, if_pos hnames, Prod.mk.injEq] at hout
    refine ⟨⟨fun _ => ⟨b, hb, hnames⟩, fun _ => hout.1⟩, ?_, fun hr => absurd hout.1 hr⟩
    intro b' hb' hnames'
    have hout' := hsome b' hb'
    rw [sniOutcome, if_pos hnames', Prod.mk.injEq] at hout'
    exact hout'.2
  · -- no server name, or one that is not accepted
    have hfail : (r, out) = (-1, hostname) := by
      by_cases hex : ∃ b, FirstServerName E b
      · obtain ⟨b, hb⟩ := hex
        have hout := hsome b hb
        rwa [sniOutcome, if_neg fun hnames => hfirst ⟨b, hb, hnames⟩] at hout
      · exact hnone fun b hb => hex ⟨b, hb⟩
    cases hfail
    refine ⟨⟨fun h => absurd h (by decide), fun h => absurd h hfirst⟩, ?_, fun _ => ⟨rfl, rfl⟩⟩
    intro b hb hnames
    exact absurd ⟨b, hb, hnames⟩ hfirst

/-- A block with one unknown extension and then the host `a`, in a record with other bytes around it. -/
theorem sniWalk_first_server_name_sample :
    (sniWalk ([9] ++ [0, 1, 0, 0, 0, 0, 0, 6, 0, 4, 0, 0, 1, 0x61] ++ [9]) (1 + 14) [7, 7, 7] 14 1).val =
      some (some (0, [0x61, 0, 7])) ∧
    (sniWalk ([9] ++ [0, 1, 0, 0, 0, 0, 0, 6, 0, 4, 0, 0, 1, 0x61] ++ [9]) (1 + 14) [7, 7, 7] 14 1).All
      (Within .tlsData 1 (1 + 14)) :=
  ⟨by decide, (sniWalk_first_server_name [9] [0, 1, 0, 0, 0, 0, 0, 6, 0, 4, 0, 0, 1, 0x61] [9] [7, 7, 7] (by decide) 14
    (by decide)).1⟩

end GoodbyeDpi
