import GoodbyeDpi.PacketProcessSpec
import Mathlib.Data.List.DropRight
import Mathlib.Data.List.Infix

/-!
# Header mangling (`src/evasion/header_mangle.c`)

`modify_http_headers` edits the line that starts with `Host:` in place: it mixes the case of the value, inserts a space,
removes a space, and turns the value into upper case, each under its switch.  The two edits that move bytes use the
length that the payload had at the start, and offsets from the CRLF in front of `Host:`; a length that comes out
negative wraps around.  The upper case is not bounded by the line.
-/

namespace GoodbyeDpi

open CSem Traced Access

def hostField : List UInt8 := ascii "\r\nHost:"

def hostFieldSpace : List UInt8 := ascii "\r\nHost: "

def lineEnd : List UInt8 := ascii "\r\n"

/-- The edit under `host_mixedcase`; `host` is the offset of the CRLF. -/
def mangleMixedcase (on : Bool) (b : List UInt8) (host : Nat) : CRun Buf (List UInt8) := do
  if on then
    match ← strstr .payload b lineEnd (host + 7) with
    | none => pure b
    | some hostEnd => mixCase b (host + 7) (hostEnd - (host + 7))
  else pure b

/-- The edit under `additional_space`: the bytes and the new `payload_len`. -/
def mangleAdditionalSpace (on : Bool) (b : List UInt8) (host payloadLen : Nat) : CRun Buf (List UInt8 × Nat) := do
  if on ∧ 7 ≤ payloadLen then
    let same ← strncmpEq .payload b hostField 7 host 0
    if same then
      let behind ← subSize payloadLen host
      let n ← subSize behind 7
      let b ← memmove .payload b (host + 8) (host + 7) n
      let b ← store .payload b (host + 7) [32]
      let b ← store .payload b (host + 8) [32]
      pure (b, payloadLen + 1)
    else pure (b, payloadLen)
  else pure (b, payloadLen)

/-- The edit under `host_removespace`.  `payloadLen` is the length at the start, `len` that of the packet by now. -/
def mangleRemovespace (on : Bool) (b : List UInt8) (host payloadLen len : Nat) : CRun Buf (List UInt8 × Nat) := do
  if on ∧ 8 ≤ payloadLen then
    let same ← strncmpEq .payload b hostFieldSpace 8 host 0
    if same then
      let behind ← subSize payloadLen host
      let n ← subSize behind 8
      let b ← memmove .payload b (host + 7) (host + 8) n
      pure (b, len - 1)
    else pure (b, len)
  else pure (b, len)

/-- The edit under `host_uppercase`: the end of the line is looked for, but the whole string is changed. -/
def mangleUppercase (on : Bool) (b : List UInt8) (host : Nat) : CRun Buf (List UInt8) := do
  if on then
    match ← strstr .payload b lineEnd (host + 7) with
    | none => pure b
    | some _ => stringToUpper b (host + 7)
  else pure b

/-- `modify_http_headers`: the return code, the bytes and the new `payload_len`. -/
def modifyHttpHeaders (cfg : Config) (b : List UInt8) (payloadLen : Nat) : CRun Buf (Int × List UInt8 × Nat) := do
  match ← strstr .payload b hostField 0 with
  | none => pure (-1, b, payloadLen)
  | some host =>
    let b ← mangleMixedcase cfg.hostMixedcase b host
    let inserted ← mangleAdditionalSpace cfg.additionalSpace b host payloadLen
    let removed ← mangleRemovespace cfg.hostRemovespace inserted.1 host payloadLen inserted.2
    let b ← mangleUppercase cfg.hostUppercase removed.1 host
    pure (0, b, removed.2)

/-- `evasion_modify_headers`; `modify_tcp_headers` does nothing and returns 0. -/
def evasionModifyHeaders (cfg : Config) (p : Packet) : CRun Buf (Int × Packet) :=
  match p.payload with
  | none => pure (-1, p)
  | some b => do
    if p.payloadLen = 0 then pure (-1, p)
    else if p.type ≠ .ipv4TcpData ∧ p.type ≠ .ipv6TcpData then pure (-1, p)
    else if p.dstPort = 80 ∨ p.srcPort = 80 then
      let r ← modifyHttpHeaders cfg b p.payloadLen
      pure (r.1, { p with payload := some r.2.1, payloadLen := r.2.2 })
    else if p.dstPort = 443 ∨ p.srcPort = 443 then pure (0, p)
    else pure (-1, p)

/-- Whatever the options are, nothing but the payload of a packet to or from port 80 is changed. -/
theorem evasionModifyHeaders_frame {cfg : Config} {p : Packet} {out : Int × Packet}
    (h : (evasionModifyHeaders cfg p).val = some out) :
    out.2 = p ∨ (p.dstPort = 80 ∨ p.srcPort = 80) ∧
      ∃ b len, out.2 = { p with payload := some b, payloadLen := len } := by
  unfold evasionModifyHeaders at h
  cases hpay : p.payload with
  | none =>
    rw [hpay] at h
    cases h
    exact Or.inl rfl
  | some b =>
    rw [hpay] at h
    simp only at h
    split_ifs at h with hempty htype hhttp hhttps
    · cases h
      exact Or.inl rfl
    · cases h
      exact Or.inl rfl
    · obtain ⟨r, -, hout⟩ := val_of_bind h
      cases hout
      exact Or.inr ⟨hhttp, _, _, rfl⟩
    · cases h
      exact Or.inl rfl
    · cases h
      exact Or.inl rfl

/-! ### Payloads with a Host line -/

/-- A buffer with a NUL that holds the payload `pre ++ rest`, where `pre` ends with the first `Host:` at the start of a
line, and at least one byte more. -/
structure HostPayload (pre rest tail : List UInt8) : Prop where
  first : ∃ host, firstOcc hostField (cstr (pre ++ (rest ++ tail))) = some host ∧ pre.length = host + 7
  zero_mem : (0 : UInt8) ∈ pre ++ (rest ++ tail)
  spare : tail ≠ []
  size : (pre ++ (rest ++ tail)).length < sizeMod

/-- `pre` ends with the text that is looked for, at the offset `host`. -/
structure EndsAtHost (pre : List UInt8) (host : Nat) : Prop where
  drop_eq : pre.drop host = hostField
  length_eq : pre.length = host + 7

private theorem endsAtHost_of_firstOcc {pre r : List UInt8} {host : Nat}
    (h : firstOcc hostField (cstr (pre ++ r)) = some host) (hlen : pre.length = host + 7) : EndsAtHost pre host := by
  refine ⟨?_, hlen⟩
  have hfound : hostField <+: (pre ++ r).drop host :=
    (prefix_drop_of_firstOcc h).trans (List.IsPrefix.drop (cstr_isPrefix _) host)
  rw [List.drop_append_of_le_length (by omega)] at hfound
  have hpre : pre.drop host <+: pre.drop host ++ r := List.prefix_append _ _
  have hsame : (pre.drop host).length = hostField.length := by
    rw [List.length_drop, hlen, Nat.add_sub_cancel_left]
    rfl
  exact (List.prefix_of_prefix_length_le hpre hfound hsame.le).eq_of_length hsame

/-! ### The steps that move bytes -/

namespace EndsAtHost

variable {pre : List UInt8} {host : Nat}

private theorem drop_append (h : EndsAtHost pre host) (q : List UInt8) :
    (pre ++ q).drop host = hostField ++ q := by
  rw [List.drop_append_of_le_length (by have := h.length_eq; omega), h.drop_eq]

/-- The comparison with `Host:` and a text behind it. -/
private theorem obeys_strncmp_append (h : EndsAtHost pre host) {u q : List UInt8} (hu : (0 : UInt8) ∉ hostField ++ u)
    (hlen : u.length ≤ q.length) {Q : Bool → Prop} :
    Obeys InRange (strncmpEq Buf.payload (pre ++ q) (hostField ++ u) (hostField ++ u).length host 0) Q ↔
      Q (u.isPrefixOf q) := by
  have hpre : (hostField ++ u).isPrefixOf (hostField ++ q) = u.isPrefixOf q := by
    rw [Bool.eq_iff_iff, List.isPrefixOf_iff_prefix, List.isPrefixOf_iff_prefix, List.prefix_append_right_inj]
  have hlong : ¬ (hostField ++ q).length < (hostField ++ u).length := by
    rw [List.length_append, List.length_append]
    omega
  rw [obeys_strncmpEq_at (watches_inRange Buf.payload) hu, h.drop_append, hpre]
  exact and_iff_right fun hshort => hlong hshort.2

private theorem obeys_strncmp (h : EndsAtHost pre host) (q : List UInt8) {Q : Bool → Prop} :
    Obeys InRange (strncmpEq Buf.payload (pre ++ q) hostField 7 host 0) Q ↔ Q true :=
  h.obeys_strncmp_append (u := []) (by decide) (Nat.zero_le _)

private theorem obeys_strncmp_space (h : EndsAtHost pre host) (c : UInt8) (q : List UInt8) {Q : Bool → Prop} :
    Obeys InRange (strncmpEq Buf.payload (pre ++ c :: q) hostFieldSpace 8 host 0) Q ↔ Q (c == 32) := by
  have hfirst : [32].isPrefixOf (c :: q) = (c == 32) := by
    rw [List.isPrefixOf_cons_cons, List.isPrefixOf_nil_left, Bool.and_true, Bool.beq_comm]
  rw [← hfirst]
  exact h.obeys_strncmp_append (u := [32]) (by decide) (by simp)

/-- The lengths that are computed, where there is no wrap. -/
private theorem wrapSub_behind (h : EndsAtHost pre host) {n : Nat} (k : Nat) (hn : pre.length + (n + k) < sizeMod) :
    wrapSub (wrapSub (pre.length + (n + k)) host) (7 + k) = n := by
  have hl := h.length_eq
  rw [wrapSub_of_le hn (by omega), wrapSub_of_le (by omega) (by omega)]
  omega

/-- What is written `k` bytes behind `Host:`. -/
private theorem overwrite_behind (h : EndsAtHost pre host) (q : List UInt8) (k : Nat) (bytes : List UInt8) :
    overwrite (pre ++ q) (host + (7 + k)) bytes = pre ++ overwrite q k bytes := by
  rw [← Nat.add_assoc, ← h.length_eq, overwrite_append]

/-- What is read `k` bytes behind `Host:`. -/
private theorem drop_behind (h : EndsAtHost pre host) (q : List UInt8) (k : Nat) :
    (pre ++ q).drop (host + (7 + k)) = q.drop k := by
  rw [← Nat.add_assoc, ← h.length_eq, List.drop_length_add_append]

/-- The insertion where something follows `Host:`: its first byte is lost. -/
private theorem obeys_additionalSpace_cons (h : EndsAtHost pre host) {c d : UInt8} {t tail : List UInt8} {len : Nat}
    (hlen : len = pre.length + (t.length + 1)) (hsize : len < sizeMod) {Q : List UInt8 × Nat → Prop} :
    Obeys InRange (mangleAdditionalSpace true (pre ++ (c :: t ++ d :: tail)) host len) Q ↔
      Q (pre ++ 32 :: 32 :: (t ++ tail), len + 1) := by
  have hw := watches_inRange Buf.payload
  have hl := h.length_eq
  have h7 : 7 ≤ len := by omega
  have hn : wrapSub (wrapSub len host) 7 = t.length + 1 := by
    rw [hlen] at hsize ⊢
    exact h.wrapSub_behind 0 hsize
  have hdrop : (pre ++ (c :: t ++ d :: tail)).drop (host + 7) = c :: t ++ d :: tail := h.drop_behind _ 0
  have htake : (c :: t ++ d :: tail).take (t.length + 1) = c :: t := by
    rw [← List.length_cons (a := c), List.take_left]
  have hmoved : overwrite (pre ++ (c :: t ++ d :: tail)) (host + 8) (c :: t) = pre ++ (c :: c :: t ++ tail) := by
    rw [h.overwrite_behind _ 1]
    simp [overwrite, Nat.add_comm 1]
  have hfirst : overwrite (pre ++ (c :: c :: t ++ tail)) (host + 7) [32] = pre ++ (32 :: c :: t ++ tail) :=
    h.overwrite_behind _ 0 _
  have hsecond : overwrite (pre ++ (32 :: c :: t ++ tail)) (host + 8) [32] = pre ++ 32 :: 32 :: (t ++ tail) :=
    h.overwrite_behind _ 1 _
  simp only [mangleAdditionalSpace, h7, and_self, ↓reduceIte, obeys_bind, h.obeys_strncmp, obeys_subSize, InRange,
    true_and, hn, obeys_memmove hw (Nat.succ_pos _), hdrop, htake, hmoved, obeys_store hw, hfirst, hsecond, obeys_pure,
    List.length_append, List.length_cons, List.length_nil]
  constructor
  · intro hall
    exact hall.2.2.2.2
  · intro hQ
    exact ⟨by omega, by omega, by omega, by omega, hQ⟩

/-- The insertion where the payload ends with `Host:`. -/
private theorem obeys_additionalSpace_nil (h : EndsAtHost pre host) {tail : List UInt8} (htail : tail ≠ [])
    (hsize : pre.length < sizeMod) {Q : List UInt8 × Nat → Prop} :
    Obeys InRange (mangleAdditionalSpace true (pre ++ tail) host pre.length) Q ↔
      2 ≤ tail.length ∧ Q (pre ++ 32 :: 32 :: tail.drop 2, pre.length + 1) := by
  have hw := watches_inRange Buf.payload
  have hl := h.length_eq
  have h7 : 7 ≤ pre.length := by omega
  have hn : wrapSub (wrapSub pre.length host) 7 = 0 := h.wrapSub_behind (n := 0) 0 hsize
  obtain ⟨d, tail, rfl⟩ := List.exists_cons_of_ne_nil htail
  have hfirst : overwrite (pre ++ d :: tail) (host + 7) [32] = pre ++ 32 :: tail := h.overwrite_behind _ 0 _
  have hsecond : overwrite (pre ++ 32 :: tail) (host + 8) [32] = pre ++ 32 :: 32 :: tail.drop 1 :=
    h.overwrite_behind _ 1 _
  simp only [mangleAdditionalSpace, h7, and_self, ↓reduceIte, obeys_bind, h.obeys_strncmp, obeys_subSize, InRange,
    true_and, hn, obeys_memmove_zero hw, obeys_store hw, hfirst, hsecond, obeys_pure, List.length_append,
    List.length_cons, List.length_nil, List.drop_succ_cons]
  constructor
  · intro hall
    exact ⟨by omega, hall.2.2⟩
  · intro hall
    exact ⟨by omega, by omega, hall.2⟩

/-- The removal where nothing but the text in front is long enough, or no space follows `Host:`. -/
private theorem obeys_removespace_of_kept (h : EndsAtHost pre host) {q : List UInt8} {payloadLen len : Nat}
    (hq : q ≠ []) (hkept : ¬ (8 ≤ payloadLen ∧ hasSpace q)) {Q : List UInt8 × Nat → Prop} :
    Obeys InRange (mangleRemovespace true (pre ++ q) host payloadLen len) Q ↔ Q (pre ++ q, len) := by
  obtain ⟨c, q, rfl⟩ := List.exists_cons_of_ne_nil hq
  by_cases h8 : 8 ≤ payloadLen
  · have hc : (c == 32) = false := by simpa [h8, hasSpace] using hkept
    simp [mangleRemovespace, h8, h.obeys_strncmp_space, hc]
  · simp [mangleRemovespace, h8]

/-- The removal of a space, of which `m` bytes behind it are moved. -/
private theorem obeys_removespace_cons (h : EndsAtHost pre host) {q : List UInt8} {payloadLen len m : Nat}
    (hlen : payloadLen = pre.length + (m + 1)) (hsize : payloadLen < sizeMod) (hm : m ≤ q.length)
    {Q : List UInt8 × Nat → Prop} :
    Obeys InRange (mangleRemovespace true (pre ++ 32 :: q) host payloadLen len) Q ↔
      Q (pre ++ (q.take m ++ (32 :: q).drop m), len - 1) := by
  have hw := watches_inRange Buf.payload
  have hl := h.length_eq
  have h8 : 8 ≤ payloadLen := by omega
  have hn : wrapSub (wrapSub payloadLen host) 8 = m := by
    rw [hlen] at hsize ⊢
    exact h.wrapSub_behind 1 hsize
  have hdrop : (pre ++ 32 :: q).drop (host + 8) = q := h.drop_behind _ 1
  have hmoved : overwrite (pre ++ 32 :: q) (host + 7) (q.take m) = pre ++ (q.take m ++ (32 :: q).drop m) := by
    rw [h.overwrite_behind _ 0, overwrite, List.length_take_of_le hm, Nat.zero_add, List.take_zero, List.nil_append]
  have hbeq : ((32 : UInt8) == 32) = true := rfl
  simp only [mangleRemovespace, h8, and_self, ↓reduceIte, obeys_bind, h.obeys_strncmp_space, obeys_subSize, InRange,
    true_and, hn, hbeq]
  cases m with
  | zero => simp only [obeys_memmove_zero hw, obeys_pure, List.take_zero, List.drop_zero, List.nil_append]
  | succ m =>
    simp only [obeys_memmove hw (Nat.succ_pos _), hdrop, hmoved, obeys_pure, List.length_append, List.length_cons]
    constructor
    · intro hall
      exact hall.2.2
    · intro hQ
      exact ⟨by omega, by omega, hQ⟩

/-- The removal where the payload ends with `Host:` and a space follows behind it: the length wraps around. -/
private theorem not_obeys_removespace (h : EndsAtHost pre host) {q : List UInt8} {len : Nat} (h8 : 8 ≤ pre.length)
    (hsize : (pre ++ 32 :: q).length < sizeMod) {Q : List UInt8 × Nat → Prop} :
    ¬ Obeys InRange (mangleRemovespace true (pre ++ 32 :: q) host pre.length len) Q := by
  have hw := watches_inRange Buf.payload
  have hl := h.length_eq
  have hn : wrapSub (wrapSub pre.length host) 8 = sizeMod - 1 := by
    rw [List.length_append] at hsize
    rw [wrapSub_of_le (a := pre.length) (b := host) (by omega) (by omega), hl, Nat.add_sub_cancel_left]
    rfl
  have hpos : 0 < sizeMod - 1 := by decide
  have hbeq : ((32 : UInt8) == 32) = true := rfl
  simp only [mangleRemovespace, h8, and_self, ↓reduceIte, obeys_bind, h.obeys_strncmp_space, obeys_subSize, InRange,
    true_and, hn, hbeq, obeys_memmove hw hpos]
  intro hall
  omega

end EndsAtHost

/-! ### The space edits -/

/-- The packet holds `pre`, some spaces and what follows the spaces of `rest`, and its length is that of all this. -/
def OnlySpacesDiffer (pre rest b : List UInt8) (len : Nat) : Prop :=
  ∃ k, b.take len = pre ++ (List.replicate k 32 ++ rest.dropWhile (· == 32)) ∧
    len = (pre ++ (List.replicate k 32 ++ rest.dropWhile (· == 32))).length

/-- The insertion alone needs a space to overwrite, or an empty value and two bytes behind it.  With the removal after
it the last two bytes must be the same as well, and the removal alone must not be misled by what is behind the
payload. -/
def SpaceEditsKeep (cfg : Config) (pre rest tail : List UInt8) : Prop :=
  if cfg.additionalSpace then
    if cfg.hostRemovespace ∧ 8 ≤ (pre ++ rest).length then
      hasSpace rest ∧ (rest.length = 1 ∨ rest.dropLast.getLast? = rest.getLast?)
    else hasSpace rest ∨ rest = [] ∧ 2 ≤ tail.length
  else ¬ (cfg.hostRemovespace ∧ 8 ≤ (pre ++ rest).length ∧ rest = [] ∧ hasSpace tail)

instance (cfg : Config) (pre rest tail : List UInt8) : Decidable (SpaceEditsKeep cfg pre rest tail) := by
  unfold SpaceEditsKeep
  infer_instance

private theorem dropWhile_replicate_append (k : Nat) (r : List UInt8) :
    (List.replicate k 32 ++ r).dropWhile (· == 32) = r.dropWhile (· == 32) := by
  induction k with
  | zero => rfl
  | succ k ih => exact ih

private theorem exists_replicate_iff {y r : List UInt8} :
    (∃ k, y = List.replicate k 32 ++ r.dropWhile (· == 32)) ↔ y.dropWhile (· == 32) = r.dropWhile (· == 32) := by
  constructor
  · intro h
    obtain ⟨k, rfl⟩ := h
    rw [dropWhile_replicate_append, List.dropWhile_idempotent]
  · intro h
    have hall : ∀ c ∈ y.takeWhile (· == 32), c = 32 := by
      intro c hc
      simpa using List.mem_takeWhile_imp hc
    refine ⟨(y.takeWhile (· == 32)).length, ?_⟩
    rw [← List.eq_replicate_of_mem hall, ← h, List.takeWhile_append_dropWhile]

private theorem onlySpacesDiffer_iff {pre rest y z : List UInt8} {len : Nat} (hlen : len = pre.length + y.length) :
    OnlySpacesDiffer pre rest (pre ++ (y ++ z)) len ↔ y.dropWhile (· == 32) = rest.dropWhile (· == 32) := by
  have htake : (pre ++ (y ++ z)).take len = pre ++ y := by
    rw [hlen, ← List.append_assoc, ← List.length_append, List.take_left]
  rw [← exists_replicate_iff]
  unfold OnlySpacesDiffer
  rw [htake]
  constructor
  · intro h
    obtain ⟨k, hk, -⟩ := h
    exact ⟨k, List.append_cancel_left hk⟩
  · intro h
    obtain ⟨k, hk⟩ := h
    refine ⟨k, by rw [hk], ?_⟩
    rw [← hk, List.length_append, hlen]

/-- Equally many bytes that differ in their spaces only do not differ. -/
private theorem eq_of_dropWhile_eq {y r : List UInt8} (hlen : y.length = r.length)
    (h : y.dropWhile (· == 32) = r.dropWhile (· == 32)) : y = r := by
  obtain ⟨i, hi⟩ := exists_replicate_iff.2 h
  obtain ⟨k, hk⟩ := exists_replicate_iff.2 (rfl : r.dropWhile (· == 32) = r.dropWhile (· == 32))
  have hik : i = k := by
    have hy := congrArg List.length hi
    have hr := congrArg List.length hk
    simp only [List.length_append, List.length_replicate] at hy hr
    omega
  rw [hik] at hi
  exact hi.trans hk.symm

private theorem dropWhile_cons_iff {c : UInt8} {t : List UInt8} :
    t.dropWhile (· == 32) = (c :: t).dropWhile (· == 32) ↔ c = 32 := by
  constructor
  · intro h
    by_contra hc
    have hkeep : (c :: t).dropWhile (· == 32) = c :: t := by simp [hc]
    have hle := (List.dropWhile_suffix (l := t) (· == 32)).length_le
    rw [h, hkeep, List.length_cons] at hle
    omega
  · intro h
    rw [h]
    rfl

/-- The bytes behind `Host:` after both edits, where there were `c :: t`: the last one is there twice. -/
private def bothResult (t : List UInt8) : List UInt8 :=
  (32 :: t).dropLast ++ [(32 :: (32 :: t).dropLast).getLast (List.cons_ne_nil _ _)]

private theorem length_bothResult (t : List UInt8) : (bothResult t).length = t.length + 1 := by
  simp [bothResult]

private theorem drop_length_cons (a : UInt8) (t z : List UInt8) :
    (a :: t ++ z).drop t.length = (a :: t).getLast (List.cons_ne_nil _ _) :: z := by
  induction t generalizing a with
  | nil => rfl
  | cons b t ih => exact ih b

private theorem bothResult_concat (t : List UInt8) (x : UInt8) :
    bothResult (t ++ [x]) = 32 :: t ++ [(32 :: t).getLast (List.cons_ne_nil _ _)] := by
  have hdrop : (32 :: (t ++ [x])).dropLast = 32 :: t := by rw [← List.cons_append, List.dropLast_concat]
  simp only [bothResult, hdrop, List.getLast_cons_cons]

private theorem take_append_drop_both (t tail : List UInt8) :
    (32 :: (t ++ tail)).take t.length ++ (32 :: 32 :: (t ++ tail)).drop t.length =
      bothResult t ++ (t.getLastD 32 :: tail) := by
  rcases List.eq_nil_or_concat' t with rfl | ⟨t, x, rfl⟩
  · rfl
  · have htake : (32 :: (t ++ [x] ++ tail)).take (t ++ [x]).length = 32 :: t := by
      rw [List.length_append]
      simp
    have hdrop : (32 :: 32 :: (t ++ [x] ++ tail)).drop (t ++ [x]).length =
        (32 :: t).getLast (List.cons_ne_nil _ _) :: x :: tail := by
      rw [← drop_length_cons 32 t (x :: tail), List.length_append, List.append_assoc]
      rfl
    rw [htake, hdrop, bothResult_concat]
    simp

/-- The request survives if it had a space there and its last byte is the same as the one in front of it. -/
private theorem bothResult_eq_iff {c : UInt8} {t : List UInt8} :
    bothResult t = c :: t ↔
      hasSpace (c :: t) ∧ ((c :: t).length = 1 ∨ (c :: t).dropLast.getLast? = (c :: t).getLast?) := by
  rcases List.eq_nil_or_concat' t with rfl | ⟨t, x, rfl⟩
  · have hone : bothResult [] = [32] := rfl
    have hspace : hasSpace [c] ↔ c = 32 := by simp [hasSpace]
    rw [hone, hspace, List.singleton_inj, eq_comm]
    exact (and_iff_left (Or.inl rfl)).symm
  · have hdrop : (c :: (t ++ [x])).dropLast = c :: t := by rw [← List.cons_append, List.dropLast_concat]
    have hlast : (c :: (t ++ [x])).getLast? = some x := List.getLast?_concat (l := c :: t)
    have hne : (c :: (t ++ [x])).length ≠ 1 := by simp
    have hspace : hasSpace (c :: (t ++ [x])) ↔ c = 32 := by simp [hasSpace]
    rw [bothResult_concat, hdrop, hlast, hspace, List.getLast?_eq_some_getLast (List.cons_ne_nil c t),
      List.cons_append, List.cons_eq_cons, List.append_right_inj, or_iff_right hne, Option.some_inj]
    constructor
    · intro h
      obtain ⟨rfl, hx⟩ := h
      exact ⟨rfl, by simpa using hx⟩
    · intro h
      obtain ⟨rfl, hx⟩ := h
      exact ⟨rfl, by rw [hx]⟩

namespace EndsAtHost

variable {pre rest tail : List UInt8} {host : Nat}

/-- The removal alone. -/
private theorem obeys_removespace_keep (h : EndsAtHost pre host) (htail : tail ≠ [])
    (hsize : (pre ++ (rest ++ tail)).length < sizeMod) :
    Obeys InRange (mangleRemovespace true (pre ++ (rest ++ tail)) host (pre ++ rest).length (pre ++ rest).length)
      (fun out => OnlySpacesDiffer pre rest out.1 out.2) ↔
      ¬ (8 ≤ (pre ++ rest).length ∧ rest = [] ∧ hasSpace tail) := by
  have hne : rest ++ tail ≠ [] := fun hnil => htail (List.append_eq_nil_iff.1 hnil).2
  by_cases hkept : 8 ≤ (pre ++ rest).length ∧ hasSpace (rest ++ tail)
  · obtain ⟨h8, hspace⟩ := hkept
    cases rest with
    | nil =>
      -- the space is behind the payload
      obtain ⟨q, hq⟩ := exists_of_hasSpace hspace
      rw [hq] at hsize ⊢
      rw [List.append_nil] at h8 ⊢
      exact iff_of_false (h.not_obeys_removespace h8 hsize) fun hno => hno ⟨h8, rfl, hspace⟩
    | cons c t =>
      have hc : c = 32 := by simpa [hasSpace] using hspace
      subst hc
      have hlen : (pre ++ 32 :: t).length = pre.length + (t.length + 1) := List.length_append
      have htake : (t ++ tail).take t.length = t := List.take_left
      simp only [List.length_append, List.length_cons] at hsize
      rw [List.cons_append, h.obeys_removespace_cons hlen (by omega) (by simp), htake,
        onlySpacesDiffer_iff (by omega)]
      simp
  · rw [h.obeys_removespace_of_kept hne hkept, onlySpacesDiffer_iff List.length_append]
    refine iff_of_true rfl fun hno => hkept ⟨hno.1, ?_⟩
    rw [hno.2.1]
    exact hno.2.2

/-- The insertion alone. -/
private theorem obeys_additionalSpace_keep (h : EndsAtHost pre host) (htail : tail ≠ [])
    (hsize : (pre ++ (rest ++ tail)).length < sizeMod) :
    Obeys InRange (mangleAdditionalSpace true (pre ++ (rest ++ tail)) host (pre ++ rest).length)
      (fun out => OnlySpacesDiffer pre rest out.1 out.2) ↔ hasSpace rest ∨ rest = [] ∧ 2 ≤ tail.length := by
  simp only [List.length_append] at hsize
  cases rest with
  | nil =>
    have hsame : OnlySpacesDiffer pre [] (pre ++ ([32] ++ 32 :: tail.drop 2)) (pre.length + 1) :=
      (onlySpacesDiffer_iff rfl).2 rfl
    rw [List.nil_append, List.append_nil, h.obeys_additionalSpace_nil htail (by omega)]
    constructor
    · intro hall
      exact Or.inr ⟨rfl, hall.1⟩
    · intro hall
      exact ⟨(hall.resolve_left (by simp [hasSpace])).2, hsame⟩
  | cons c t =>
    obtain ⟨d, tail, rfl⟩ := List.exists_cons_of_ne_nil htail
    simp only [List.length_cons] at hsize
    have hlen : (pre ++ c :: t).length = pre.length + (t.length + 1) := List.length_append
    have hsame : OnlySpacesDiffer pre (c :: t) (pre ++ (32 :: 32 :: t ++ tail)) ((pre ++ c :: t).length + 1) ↔
        (32 :: 32 :: t).dropWhile (· == 32) = (c :: t).dropWhile (· == 32) :=
      onlySpacesDiffer_iff (by rw [hlen]; rfl)
    have htwice : (32 :: 32 :: t).dropWhile (· == 32) = t.dropWhile (· == (32 : UInt8)) := rfl
    rw [h.obeys_additionalSpace_cons hlen (by omega)]
    refine hsame.trans ?_
    rw [htwice, dropWhile_cons_iff]
    simp [hasSpace]

/-- The insertion and, after it, the removal, which counts from the length before the insertion. -/
private theorem obeys_bothSpaces_keep (h : EndsAtHost pre host) (htail : tail ≠ [])
    (hsize : (pre ++ (rest ++ tail)).length < sizeMod) (h8 : 8 ≤ (pre ++ rest).length) :
    Obeys InRange (mangleAdditionalSpace true (pre ++ (rest ++ tail)) host (pre ++ rest).length)
      (fun inserted => Obeys InRange (mangleRemovespace true inserted.1 host (pre ++ rest).length inserted.2)
        (fun out => OnlySpacesDiffer pre rest out.1 out.2)) ↔
      hasSpace rest ∧ (rest.length = 1 ∨ rest.dropLast.getLast? = rest.getLast?) := by
  simp only [List.length_append] at hsize
  cases rest with
  | nil =>
    rw [List.append_nil] at h8
    rw [List.nil_append, List.append_nil, h.obeys_additionalSpace_nil htail (by omega)]
    refine iff_of_false (fun hall => ?_) (by simp [hasSpace])
    refine h.not_obeys_removespace h8 ?_ hall.2
    have := hall.1
    simp only [List.length_append, List.length_cons, List.length_drop]
    omega
  | cons c t =>
    obtain ⟨d, tail, rfl⟩ := List.exists_cons_of_ne_nil htail
    simp only [List.length_cons] at hsize
    have hlen : (pre ++ c :: t).length = pre.length + (t.length + 1) := List.length_append
    rw [h.obeys_additionalSpace_cons hlen (by omega), h.obeys_removespace_cons hlen (by omega) (by simp; omega),
      Nat.add_sub_cancel, take_append_drop_both, onlySpacesDiffer_iff (by rw [hlen, length_bothResult])]
    rw [← bothResult_eq_iff]
    constructor
    · exact eq_of_dropWhile_eq (length_bothResult _)
    · intro heq
      rw [heq]

end EndsAtHost

/-- The edits one after the other, where `Host:` is found. -/
private theorem obeys_modifyHttpHeaders (cfg : Config) {b : List UInt8} {host len : Nat} (hz : (0 : UInt8) ∈ b)
    (hfirst : firstOcc hostField (cstr b) = some host) {Q : Int × List UInt8 × Nat → Prop} :
    Obeys InRange (modifyHttpHeaders cfg b len) Q ↔
      Obeys InRange (mangleMixedcase cfg.hostMixedcase b host) fun b =>
        Obeys InRange (mangleAdditionalSpace cfg.additionalSpace b host len) fun inserted =>
          Obeys InRange (mangleRemovespace cfg.hostRemovespace inserted.1 host len inserted.2) fun removed =>
            Obeys InRange (mangleUppercase cfg.hostUppercase removed.1 host) fun b => Q (0, b, removed.2) := by
  simp [modifyHttpHeaders, obeys_strstr (watches_inRange Buf.payload), hz, hfirst]

/-- With the case options off, the payload after `modify_http_headers` differs from the one before in the number of
spaces behind `Host:` alone exactly under the condition. -/
theorem modifyHttpHeaders_spaces_iff (cfg : Config) (pre rest tail : List UInt8) (hb : HostPayload pre rest tail)
    (hmix : cfg.hostMixedcase = false) (hup : cfg.hostUppercase = false) :
    Obeys InRange (modifyHttpHeaders cfg (pre ++ (rest ++ tail)) (pre ++ rest).length)
      (fun out => out.1 = 0 ∧ OnlySpacesDiffer pre rest out.2.1 out.2.2) ↔ SpaceEditsKeep cfg pre rest tail := by
  obtain ⟨host, hfirst, hlen⟩ := hb.first
  have hends := endsAtHost_of_firstOcc hfirst hlen
  rw [obeys_modifyHttpHeaders cfg hb.zero_mem hfirst]
  simp only [mangleMixedcase, mangleUppercase, hmix, hup, Bool.false_eq_true, ↓reduceIte, obeys_pure, true_and]
  unfold SpaceEditsKeep
  cases hadd : cfg.additionalSpace with
  | false =>
    have hnot : mangleAdditionalSpace false (pre ++ (rest ++ tail)) host (pre ++ rest).length =
        pure (pre ++ (rest ++ tail), (pre ++ rest).length) := by simp [mangleAdditionalSpace]
    rw [hnot, obeys_pure]
    cases hrem : cfg.hostRemovespace with
    | false =>
      have hsame : OnlySpacesDiffer pre rest (pre ++ (rest ++ tail)) (pre ++ rest).length :=
        (onlySpacesDiffer_iff List.length_append).2 rfl
      simpa [mangleRemovespace] using hsame
    | true =>
      rw [hends.obeys_removespace_keep hb.spare hb.size]
      simp
  | true =>
    cases hrem : cfg.hostRemovespace with
    | false =>
      simp only [mangleRemovespace, Bool.false_eq_true, false_and, ↓reduceIte, obeys_pure]
      exact hends.obeys_additionalSpace_keep hb.spare hb.size
    | true =>
      by_cases h8 : 8 ≤ (pre ++ rest).length
      · simp only [h8, and_self, ↓reduceIte]
        exact hends.obeys_bothSpaces_keep hb.spare hb.size h8
      · simp only [mangleRemovespace, h8, and_false, ↓reduceIte, obeys_pure]
        exact hends.obeys_additionalSpace_keep hb.spare hb.size

/-- A request up to `Host:`. -/
def mangledRequestHead : List UInt8 := ascii "GET / HTTP/1.1\r\nHost:"

theorem modifyHttpHeaders_spaces_spacedRequest :
    Obeys InRange (modifyHttpHeaders { configInit with additionalSpace := true }
      (mangledRequestHead ++ (ascii " a.b\r\n\r\n" ++ [0])) (mangledRequestHead ++ ascii " a.b\r\n\r\n").length)
      (fun out => out.1 = 0 ∧ OnlySpacesDiffer mangledRequestHead (ascii " a.b\r\n\r\n") out.2.1 out.2.2) :=
  (modifyHttpHeaders_spaces_iff { configInit with additionalSpace := true } _ _ [0]
    ⟨⟨14, by decide +kernel, rfl⟩, by decide, by decide, by decide⟩ rfl rfl).2 (by decide)

/-- With no space behind `Host:`, the insertion overwrites the first byte of the value. -/
theorem modifyHttpHeaders_loses_byte :
    HostPayload mangledRequestHead (ascii "a.b\r\n\r\n") [0] ∧
      (modifyHttpHeaders { configInit with additionalSpace := true }
        (mangledRequestHead ++ (ascii "a.b\r\n\r\n" ++ [0])) (mangledRequestHead ++ ascii "a.b\r\n\r\n").length).val =
        some (0, mangledRequestHead ++ ascii "  .b\r\n\r\n", 29) ∧
      ¬ OnlySpacesDiffer mangledRequestHead (ascii "a.b\r\n\r\n")
        (mangledRequestHead ++ ascii "  .b\r\n\r\n") 29 := by
  refine ⟨⟨⟨14, by decide +kernel, rfl⟩, by decide, by decide, by decide⟩, by decide +kernel, ?_⟩
  rw [← List.append_nil (ascii "  .b\r\n\r\n"), onlySpacesDiffer_iff (by decide)]
  decide

/-! ### The case edits -/

/-- A buffer with a NUL where `pre` ends with the first `Host:` at the start of a line and the line ends behind
`value`. -/
structure HostFieldLine (pre value rest : List UInt8) : Prop where
  first : ∃ host, firstOcc hostField (cstr (pre ++ (value ++ rest))) = some host ∧ pre.length = host + 7
  line_end : firstOcc lineEnd (cstr (value ++ rest)) = some value.length
  zero_mem : (0 : UInt8) ∈ pre ++ (value ++ rest)

/-- The buffer is the one before, but for the letter case inside the value. -/
def OnlyCaseDiffers (pre value rest b : List UInt8) : Prop :=
  ∃ value', value'.map toLower = value.map toLower ∧ b = pre ++ (value' ++ rest)

/-- The text behind the value is as it was, in upper case, exactly when it has no lower-case letter. -/
private theorem onlyCaseDiffers_upper {pre value rest mixed : List UInt8} (h : mixed.map toLower = value.map toLower) :
    OnlyCaseDiffers pre value rest
      (pre ++ (mixed.map toUpper ++ ((cstr rest).map toUpper ++ rest.drop (cstr rest).length))) ↔
      ∀ c ∈ cstr rest, toUpper c = c := by
  have hrest : cstr rest ++ rest.drop (cstr rest).length = rest := by
    rw [← List.prefix_append_drop (cstr_isPrefix rest)]
  have hlow : (mixed.map toUpper).map toLower = value.map toLower := by
    rw [← h, List.map_map]
    exact List.map_congr_left fun c _ => toLower_toUpper c
  unfold OnlyCaseDiffers
  constructor
  · intro hall
    obtain ⟨value', hvalue, heq⟩ := hall
    have hlen : (mixed.map toUpper).length = value'.length := by
      have := congrArg List.length (hlow.trans hvalue.symm)
      simpa using this
    have hback : (cstr rest).map toUpper ++ rest.drop (cstr rest).length =
        cstr rest ++ rest.drop (cstr rest).length :=
      (List.append_inj_right (List.append_cancel_left heq) hlen).trans hrest.symm
    have hsame := List.append_cancel_right hback
    exact List.map_eq_map_iff.1 (hsame.trans (List.map_id' _).symm)
  · intro hall
    refine ⟨mixed.map toUpper, hlow, ?_⟩
    rw [List.map_congr_left hall, List.map_id', hrest]

namespace HostFieldLine

variable {pre value rest : List UInt8}

private theorem zero_notMem_pre (h : HostFieldLine pre value rest) : (0 : UInt8) ∉ pre := by
  obtain ⟨host, hfirst, hlen⟩ := h.first
  have hle := firstOcc_length hfirst
  have h7 : hostField.length = 7 := rfl
  exact notMem_of_le_cstr (r := value ++ rest) (by omega)

private theorem zero_notMem_value (h : HostFieldLine pre value rest) : (0 : UInt8) ∉ value := by
  have hle := firstOcc_length h.line_end
  exact notMem_of_le_cstr (r := rest) (by omega)

private theorem lineEnd_prefix (h : HostFieldLine pre value rest) : lineEnd <+: cstr rest := by
  have hfound := prefix_drop_of_firstOcc h.line_end
  rwa [cstr_append h.zero_notMem_value, List.drop_left] at hfound

private theorem zero_mem_rest (h : HostFieldLine pre value rest) : (0 : UInt8) ∈ rest := by
  have hz := h.zero_mem
  simpa [h.zero_notMem_pre, h.zero_notMem_value] using hz

/-- The mixing of the case stays in the value. -/
private theorem obeys_mixedcase (h : HostFieldLine pre value rest) {Q : List UInt8 → Prop} :
    Obeys InRange (mangleMixedcase true (pre ++ (value ++ rest)) (pre.length - 7)) Q ↔
      Q (pre ++ (alternateCase 0 value ++ rest)) := by
  have hw := watches_inRange Buf.payload
  obtain ⟨host, hfirst, hlen⟩ := h.first
  have hmix : Obeys InRange (mixCase (pre ++ value ++ rest) pre.length value.length) Q ↔
      Q (pre ++ alternateCase 0 value ++ rest) := obeys_mixCase hw h.zero_notMem_value
  have hz : (0 : UInt8) ∈ value ++ rest := List.mem_append_right value h.zero_mem_rest
  have hat : pre.length - 7 + 7 = pre.length := by omega
  simp only [mangleMixedcase, ↓reduceIte, obeys_bind, obeys_strstr hw, hat, List.drop_left, h.line_end, Option.map_some,
    Nat.add_sub_cancel_left]
  rw [List.append_assoc, List.append_assoc] at hmix
  exact (and_iff_right hz).trans hmix

/-- The upper case goes on to the NUL, whatever the value has become. -/
private theorem obeys_uppercase (h : HostFieldLine pre value rest) {value' : List UInt8} (hz : (0 : UInt8) ∉ value')
    {Q : List UInt8 → Prop} :
    Obeys InRange (mangleUppercase true (pre ++ (value' ++ rest)) (pre.length - 7)) Q ↔
      Q (pre ++ (value'.map toUpper ++ ((cstr rest).map toUpper ++ rest.drop (cstr rest).length))) := by
  have hw := watches_inRange Buf.payload
  obtain ⟨host, hfirst, hlen⟩ := h.first
  have hat : pre.length - 7 + 7 = pre.length := by omega
  have hmem : (0 : UInt8) ∈ value' ++ rest := List.mem_append_right value' h.zero_mem_rest
  obtain ⟨k, hk⟩ := Option.isSome_iff_exists.1 (isSome_firstOcc_append (s := value') h.lineEnd_prefix)
  obtain ⟨t, ht⟩ := exists_eq_cstr_append h.zero_mem_rest
  have hdrop : rest.drop (cstr rest).length = 0 :: t := by
    nth_rewrite 2 [ht]
    exact List.drop_left
  have hzs : (0 : UInt8) ∉ value' ++ cstr rest := by
    rw [List.mem_append]
    exact fun hor => hor.elim hz (zero_notMem_cstr rest)
  have hbuf : pre ++ (value' ++ rest) = pre ++ (value' ++ cstr rest) ++ 0 :: t := by
    nth_rewrite 1 [ht]
    simp only [List.append_assoc]
  have hupper : Obeys InRange (stringToUpper (pre ++ (value' ++ cstr rest) ++ 0 :: t) pre.length) Q ↔
      Q (pre ++ (value' ++ cstr rest).map toUpper ++ 0 :: t) := obeys_stringToUpper hw hzs
  rw [← hbuf, List.map_append, ← hdrop, List.append_assoc, List.append_assoc] at hupper
  simp only [mangleUppercase, ↓reduceIte, obeys_bind, obeys_strstr hw, hat, List.drop_left, cstr_append hz, hk,
    Option.map_some]
  exact (and_iff_right hmem).trans hupper

end HostFieldLine

/-- With the space options off, the case edits stay inside the value of the Host line exactly when the upper case is off
or nothing between the end of that line and the NUL is a lower-case letter. -/
theorem modifyHttpHeaders_case_iff (cfg : Config) (pre value rest : List UInt8) (payloadLen : Nat)
    (hb : HostFieldLine pre value rest) (hadd : cfg.additionalSpace = false) (hrem : cfg.hostRemovespace = false) :
    Obeys InRange (modifyHttpHeaders cfg (pre ++ (value ++ rest)) payloadLen)
      (fun out => out.1 = 0 ∧ OnlyCaseDiffers pre value rest out.2.1 ∧ out.2.2 = payloadLen) ↔
      (cfg.hostUppercase → ∀ c ∈ cstr rest, toUpper c = c) := by
  obtain ⟨host, hfirst, hlen⟩ := hb.first
  have hhost : host = pre.length - 7 := by omega
  subst hhost
  -- the value after the mixing
  obtain ⟨mixed, hmixed, hcase⟩ : ∃ mixed : List UInt8, mixed.map toLower = value.map toLower ∧
      ∀ Q : List UInt8 → Prop, Obeys InRange (mangleMixedcase cfg.hostMixedcase (pre ++ (value ++ rest))
        (pre.length - 7)) Q ↔ Q (pre ++ (mixed ++ rest)) := by
    cases cfg.hostMixedcase with
    | false => exact ⟨value, rfl, fun Q => by simp [mangleMixedcase]⟩
    | true => exact ⟨alternateCase 0 value, map_toLower_alternateCase 0 value, fun Q => hb.obeys_mixedcase⟩
  have hz : (0 : UInt8) ∉ mixed := by
    intro hmem
    have hlow : toLower 0 ∈ value.map toLower := hmixed ▸ List.mem_map_of_mem hmem
    obtain ⟨c, hc, hzero⟩ := List.mem_map.1 hlow
    rw [toLower_eq_zero.1 hzero] at hc
    exact hb.zero_notMem_value hc
  rw [obeys_modifyHttpHeaders cfg hb.zero_mem hfirst, hcase]
  simp only [mangleAdditionalSpace, mangleRemovespace, hadd, hrem, Bool.false_eq_true, false_and, ↓reduceIte,
    obeys_pure, true_and, and_true]
  cases hup : cfg.hostUppercase with
  | false =>
    simp only [mangleUppercase, Bool.false_eq_true, ↓reduceIte, obeys_pure, false_imp_iff, iff_true]
    exact ⟨mixed, hmixed, rfl⟩
  | true =>
    rw [hb.obeys_uppercase hz, onlyCaseDiffers_upper hmixed]
    exact (imp_iff_right rfl).symm

/-- The Host line of a request. -/
def mangledRequestValue : List UInt8 := ascii " a.b"

theorem modifyHttpHeaders_case_lastLine :
    Obeys InRange (modifyHttpHeaders { configInit with hostMixedcase := true, hostUppercase := true }
      (mangledRequestHead ++ (mangledRequestValue ++ (ascii "\r\n\r\n" ++ [0]))) 29)
      (fun out => out.1 = 0 ∧
        OnlyCaseDiffers mangledRequestHead mangledRequestValue (ascii "\r\n\r\n" ++ [0]) out.2.1 ∧ out.2.2 = 29) :=
  (modifyHttpHeaders_case_iff { configInit with hostMixedcase := true, hostUppercase := true } _ _ _ 29
    ⟨⟨14, by decide +kernel, rfl⟩, by decide +kernel, by decide⟩ rfl rfl).2 fun _ => by decide +kernel

/-- A cookie behind the Host line is turned into upper case as well. -/
theorem modifyHttpHeaders_changes_cookie :
    HostFieldLine mangledRequestHead mangledRequestValue (ascii "\r\nCookie: k=v\r\n\r\n" ++ [0]) ∧
      (modifyHttpHeaders { configInit with hostUppercase := true }
        (mangledRequestHead ++ (mangledRequestValue ++ (ascii "\r\nCookie: k=v\r\n\r\n" ++ [0]))) 42).val =
        some (0, mangledRequestHead ++ (ascii " A.B" ++ (ascii "\r\nCOOKIE: K=V\r\n\r\n" ++ [0])), 42) ∧
      ¬ OnlyCaseDiffers mangledRequestHead mangledRequestValue (ascii "\r\nCookie: k=v\r\n\r\n" ++ [0])
        (mangledRequestHead ++ (ascii " A.B" ++ (ascii "\r\nCOOKIE: K=V\r\n\r\n" ++ [0]))) := by
  refine ⟨⟨⟨14, by decide +kernel, rfl⟩, by decide +kernel, by decide⟩, by decide +kernel, ?_⟩
  intro h
  obtain ⟨value', hvalue, heq⟩ := h
  have hlen : (ascii " A.B").length = value'.length := by
    have := congrArg List.length hvalue
    rw [List.length_map, List.length_map] at this
    exact this.symm
  have hback := List.append_inj_right (List.append_cancel_left heq) hlen
  exact absurd hback (by decide)

end GoodbyeDpi
