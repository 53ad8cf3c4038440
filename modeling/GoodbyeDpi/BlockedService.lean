import GoodbyeDpi.ClientHello
import GoodbyeDpi.PacketProcessSpec
import GoodbyeDpi.StringSearch

/-!
# Blocked services (`turkey_is_blocked_service`, `turkey_get_optimal_fragment_size`)

The start of the payload is copied into an array of 512 bytes, lowered there and searched for the names of the
services.  The copy is made with `strncpy`, so it ends at the first NUL of the payload: a name behind a NUL is not seen,
as in every TLS record, whose length fields hold zero bytes.

The copy is logged as `hostname`, like the other local arrays of text.  A `char` above 127 is negative, and `tolower`
leaves it as it is.
-/

namespace GoodbyeDpi

open CSem Traced Access

/-! ### The code -/

/-- `turkish_services`. -/
def turkishServices : List (List UInt8) :=
  [ascii "discord.com", ascii "twitter.com", ascii "youtube.com", ascii "telegram.org", ascii "facebook.com",
    ascii "instagram.com", ascii "reddit.com", ascii "wikipedia.org", ascii "netflix.com", ascii "spotify.com",
    ascii "steamcommunity.com"]

/-- The size of `payload_str`. -/
def payloadStrSize : Nat := 512

/-- `copy_len`. -/
def copyLen (payloadLen : Nat) : Nat := if payloadLen < payloadStrSize - 1 then payloadLen else payloadStrSize - 1

/-- The loop that lowers `payload_str`. -/
def lowerLoop (payloadStr : List UInt8) : CRun Buf (List UInt8) :=
  mapString .hostname toLower payloadStrSize 0 payloadStr

/-- The loop over the services. -/
def searchServices (payloadStr : List UInt8) : List (List UInt8) → CRun Buf Bool
  | [] => pure false
  | service :: services => do
    match ← strstr .hostname payloadStr service 0 with
    | some _ => pure true
    | none => searchServices payloadStr services

/-- `turkey_is_blocked_service`. -/
def turkeyIsBlockedService (p : Packet) : CRun Buf Bool :=
  match p.payload with
  | none => pure false
  | some payload => do
    let payloadStr := List.replicate payloadStrSize 0
    let bytes ← strncpyBytes .payload payload (copyLen p.payloadLen) 0
    let payloadStr ← store .hostname payloadStr 0 bytes
    let payloadStr ← lowerLoop payloadStr
    searchServices payloadStr turkishServices

/-- `TURKEY_HTTP_FRAGMENT_SIZE`. -/
def turkeyHttpFragmentSize : UInt32 := 2

/-- `TURKEY_HTTPS_FRAGMENT_SIZE`. -/
def turkeyHttpsFragmentSize : UInt32 := 2

/-- `TURKEY_MAX_FRAGMENT_SIZE`. -/
def turkeyMaxFragmentSize : UInt32 := 5

/-- `DEFAULT_HTTP_FRAGMENT_SIZE` and `DEFAULT_HTTPS_FRAGMENT_SIZE`, as `goodbyedpi.h` has them. -/
def defaultHttpFragmentSize : UInt32 := 40

def defaultHttpsFragmentSize : UInt32 := 40

/-- `turkey_get_optimal_fragment_size`. -/
def turkeyGetOptimalFragmentSize (p : Packet) : CRun Buf UInt32 := do
  let http ← packetIsHttp p
  if http then
    let blocked ← turkeyIsBlockedService p
    pure (if blocked then turkeyHttpFragmentSize else defaultHttpFragmentSize)
  else if packetIsHttps p then
    let blocked ← turkeyIsBlockedService p
    pure (if blocked then turkeyHttpsFragmentSize else defaultHttpsFragmentSize)
  else pure turkeyMaxFragmentSize

/-! ### The names of the services -/

/-- One of the services is named in `s`, up to letter case. -/
def NamesService (s : List UInt8) : Prop := ∃ service ∈ turkishServices, ∃ i, StringSearch.OccursAt service s i

/-- The bytes of the payload that are inspected. -/
def inspected (p : Packet) (payload : List UInt8) : List UInt8 := payload.take (min p.payloadLen (payloadStrSize - 1))

theorem copyLen_eq (payloadLen : Nat) : copyLen payloadLen = min payloadLen (payloadStrSize - 1) := by
  unfold copyLen
  split
  · omega
  · omega

/-- The search for the names one by one. -/
def findsService (s : List UInt8) : Bool := turkishServices.any fun service => (findCi service s).isSome

theorem findsService_iff {s : List UInt8} : findsService s = true ↔ NamesService s := by
  have hsome : ∀ service, (findCi service s).isSome = true ↔ ∃ i, StringSearch.OccursAt service s i := by
    intro service
    rw [Option.isSome_iff_ne_none, Ne, StringSearch.findCi_eq_none_iff]
    exact not_forall_not
  simp only [findsService, NamesService, List.any_eq_true, hsome]

instance (s : List UInt8) : Decidable (NamesService s) := decidable_of_iff _ findsService_iff

/-- A name stays where it is when something is appended. -/
theorem NamesService.of_prefix {s s' : List UInt8} (h : NamesService s) (hpre : s <+: s') : NamesService s' := by
  obtain ⟨service, hmem, i, hi, hocc⟩ := h
  obtain ⟨r, rfl⟩ := hpre
  refine ⟨service, hmem, i, by simp; omega, ?_⟩
  rw [List.drop_append_of_le_length hi]
  unfold ciPrefix at hocc ⊢
  rw [List.map_append]
  exact hocc.trans (List.prefix_append _ _)

/-! ### Contracts -/

section

variable {P : Access Buf → Prop}

/-- The search in a lowered string. -/
private theorem obeys_searchServices (hw : Watches P .hostname) {s tail : List UInt8} (hz : (0 : UInt8) ∉ s)
    (services : List (List UInt8)) (hlower : ∀ service ∈ services, service.map toLower = service) {Q : Bool → Prop} :
    Obeys P (searchServices (s.map toLower ++ 0 :: tail) services) Q ↔
      Q (services.any fun service => (findCi service s).isSome) := by
  have hcstr : cstr (s.map toLower ++ 0 :: tail) = s.map toLower := by
    rw [cstr_append_zero, ← map_toLower_cstr, cstr_of_notMem hz]
  induction services with
  | nil => simp [searchServices]
  | cons service services ih =>
    have ih := ih fun service hmem => hlower service (List.mem_cons_of_mem _ hmem)
    have hfind : firstOcc service (s.map toLower) = findCi service s := by
      rw [findCi, hlower service List.mem_cons_self]
    rw [searchServices, obeys_bind, obeys_strstr hw, List.drop_zero, hcstr, hfind, and_iff_right (by simp),
      List.any_cons]
    cases findCi service s with
    | none => simpa using ih
    | some j => simp

end

/-- The array after the copy. -/
private theorem payloadStr_eq {s : List UInt8} {n : Nat} (hs : s.length ≤ n) (hn : n ≤ payloadStrSize - 1) :
    overwrite (List.replicate payloadStrSize 0) 0 (s ++ List.replicate (n - s.length) 0) =
      [] ++ s ++ 0 :: List.replicate (payloadStrSize - 1 - s.length) 0 := by
  have hzeros : List.replicate (n - s.length) (0 : UInt8) ++ List.replicate (payloadStrSize - n) 0 =
      0 :: List.replicate (payloadStrSize - 1 - s.length) 0 := by
    have hpos : 0 < payloadStrSize := by decide
    rw [List.replicate_append_replicate, ← List.replicate_succ]
    congr 1
    omega
  rw [overwrite, List.take_zero, List.nil_append, List.drop_replicate, List.length_append, List.length_replicate,
    Nat.zero_add, Nat.add_sub_cancel' hs, List.append_assoc, hzeros, List.nil_append]

/-- What `turkey_is_blocked_service` finds: a service named in the window, up to its first NUL. -/
theorem obeys_turkeyIsBlockedService {p : Packet} {payload : List UInt8} (hpay : p.payload = some payload)
    (hlen : p.payloadLen ≤ payload.length) {Q : Bool → Prop} :
    Obeys InRange (turkeyIsBlockedService p) Q ↔ Q (findsService (cstr (inspected p payload))) := by
  have harray : payloadStrSize = 512 := rfl
  have hcopy := copyLen_eq p.payloadLen
  have hwindow : inspected p payload = (payload.drop 0).take (copyLen p.payloadLen) := by
    rw [inspected, List.drop_zero, hcopy]
  have hs : (cstr (inspected p payload)).length ≤ copyLen p.payloadLen := by
    have h1 := (cstr_isPrefix (inspected p payload)).length_le
    have h2 : (inspected p payload).length ≤ copyLen p.payloadLen := hwindow ▸ List.length_take_le _ _
    omega
  have hlower : ∀ service ∈ turkishServices, service.map toLower = service := by decide +kernel
  have hz := zero_notMem_cstr (inspected p payload)
  have hsize : (cstr (inspected p payload) ++
      List.replicate (copyLen p.payloadLen - (cstr (inspected p payload)).length) 0).length ≤
        (List.replicate payloadStrSize (0 : UInt8)).length := by
    rw [List.length_append, List.length_replicate, List.length_replicate]
    omega
  rw [turkeyIsBlockedService, hpay]
  dsimp only
  rw [obeys_bind, obeys_strncpyBytes (watches_inRange _) (by omega), ← hwindow, obeys_bind,
    obeys_store (watches_inRange _), and_iff_right (Or.inr (by omega)), payloadStr_eq hs (by omega), obeys_bind]
  have hloop := obeys_mapString (watches_inRange Buf.hostname) toLower [] (cstr (inspected p payload))
    (List.replicate (payloadStrSize - 1 - (cstr (inspected p payload)).length) 0) payloadStrSize (by omega) hz
    (Q := fun b => Obeys InRange (searchServices b turkishServices) Q)
  rw [List.length_nil] at hloop
  rw [lowerLoop, hloop, List.nil_append, obeys_searchServices (watches_inRange _) hz turkishServices hlower]
  rfl

/-! ### Results -/

theorem NamesService.length_le {s : List UInt8} (h : NamesService s) : 10 ≤ s.length := by
  have hservices : ∀ service ∈ turkishServices, 10 ≤ service.length := by decide +kernel
  obtain ⟨service, hmem, i, hi, hocc⟩ := h
  have hlong := hservices service hmem
  have hfit := hocc.length_le
  rw [List.length_map, List.length_map, List.length_drop] at hfit
  omega

/-- A payload that names a service is too long for the method names. -/
private theorem not_endsInMethod_of_namesService {s : List UInt8} (h : NamesService s) :
    ¬ EndsInMethod httpMethods s := by
  have hmethods : ∀ m ∈ httpMethods, m.length ≤ 6 := by decide +kernel
  have hlong := h.length_le
  rintro ⟨m, hm, -, hlt⟩
  have hshort := hmethods m hm
  omega

/-- `packet_is_http` on a payload that names a service. -/
private theorem obeys_packetIsHttp_of_namesService {p : Packet} {payload : List UInt8}
    (hpay : p.payload = some payload) (hnames : NamesService payload) {Q : Bool → Prop} :
    Obeys InRange (packetIsHttp p) Q ↔
      Q (decide (packetIsTcp p ∧ p.dstPort = 80 ∧ 3 ≤ p.payloadLen) && startsWithMethod payload) := by
  rw [obeys_packetIsHttp (watches_inRange _) hpay]
  split
  · rename_i hport
    rw [and_iff_right (not_endsInMethod_of_namesService hnames), decide_eq_true hport, Bool.true_and]
  · rename_i hport
    rw [decide_eq_false hport, Bool.false_and]

/-- A service named in the window is found, nothing else is, and the packet gets the small fragment size. -/
def DetectsServices (p : Packet) (payload : List UInt8) : Prop :=
  Obeys InRange (turkeyIsBlockedService p) (fun r => r = true ↔ NamesService (inspected p payload)) ∧
    (NamesService (inspected p payload) → Obeys InRange (turkeyGetOptimalFragmentSize p) fun size =>
      ((packetIsHttp p).val = some true → size = turkeyHttpFragmentSize) ∧
        (packetIsHttps p → size = turkeyHttpsFragmentSize))

private theorem optimalFragmentSize_of_found {p : Packet} {payload : List UInt8} (hpay : p.payload = some payload)
    (hlen : p.payloadLen ≤ payload.length) (hnames : NamesService payload)
    (hfound : findsService (cstr (inspected p payload)) = true) :
    Obeys InRange (turkeyGetOptimalFragmentSize p) fun size =>
      ((packetIsHttp p).val = some true → size = turkeyHttpFragmentSize) ∧
        (packetIsHttps p → size = turkeyHttpsFragmentSize) := by
  have hval := val_of_obeys_eq (fun e h => h) ((obeys_packetIsHttp_of_namesService hpay hnames).2 rfl)
  rw [turkeyGetOptimalFragmentSize, obeys_bind, obeys_packetIsHttp_of_namesService hpay hnames, hval]
  cases hhttp : decide (packetIsTcp p ∧ p.dstPort = 80 ∧ 3 ≤ p.payloadLen) && startsWithMethod payload with
  | true =>
    have hport : p.dstPort = 80 := by
      rw [Bool.and_eq_true, decide_eq_true_iff] at hhttp
      exact hhttp.1.2.1
    have hhttps : packetIsHttps p = false := by simp [packetIsHttps, hport]
    rw [if_pos rfl, obeys_bind, obeys_turkeyIsBlockedService hpay hlen, hfound, obeys_pure]
    exact ⟨fun _ => rfl, fun h => by simp [hhttps] at h⟩
  | false =>
    rw [if_neg Bool.false_ne_true]
    cases hhttps : packetIsHttps p with
    | true =>
      rw [if_pos rfl, obeys_bind, obeys_turkeyIsBlockedService hpay hlen, hfound, obeys_pure]
      exact ⟨fun h => by simp at h, fun _ => rfl⟩
    | false =>
      rw [if_neg Bool.false_ne_true, obeys_pure]
      exact ⟨fun h => by simp at h, fun h => by simp at h⟩

/-- When every service named in the window is detected: a name in the window must not be hidden by a NUL. -/
theorem detectsServices_iff (p : Packet) (payload : List UInt8) (hpay : p.payload = some payload)
    (hlen : p.payloadLen ≤ payload.length) :
    DetectsServices p payload ↔
      (NamesService (inspected p payload) → NamesService (cstr (inspected p payload))) := by
  have hdetects : Obeys InRange (turkeyIsBlockedService p) (fun r => r = true ↔ NamesService (inspected p payload)) ↔
      (NamesService (inspected p payload) → NamesService (cstr (inspected p payload))) := by
    rw [obeys_turkeyIsBlockedService hpay hlen, findsService_iff]
    constructor
    · intro h hnames
      exact h.2 hnames
    · intro h
      exact ⟨fun hnames => hnames.of_prefix (cstr_isPrefix _), h⟩
  constructor
  · intro h
    exact hdetects.1 h.1
  · intro h
    refine ⟨hdetects.2 h, fun hnames => ?_⟩
    have hwhole : NamesService payload := hnames.of_prefix (List.take_prefix _ _)
    exact optimalFragmentSize_of_found hpay hlen hwhole (findsService_iff.2 (h hnames))

/-- A packet to the given port with a payload. -/
private def packetTo (port : UInt16) (payload : List UInt8) : Packet :=
  { packetInit with type := .ipv4TcpData, dstPort := port, payload := some payload, payloadLen := payload.length }

/-- In a request there is no NUL. -/
theorem detectsServices_request :
    DetectsServices (packetTo 80 (ascii "GET / HTTP/1.1 Host: www.Discord.com"))
      (ascii "GET / HTTP/1.1 Host: www.Discord.com") :=
  (detectsServices_iff (packetTo 80 (ascii "GET / HTTP/1.1 Host: www.Discord.com"))
    (ascii "GET / HTTP/1.1 Host: www.Discord.com") rfl (by decide +kernel)).2 (by decide +kernel)

/-- No ClientHello is detected, whatever its host name: the handshake fits a record, so the first byte of its 24 bit
length is zero. -/
theorem turkeyIsBlockedService_clientHello {ch : ClientHello} (hfits : ch.FitsRecord) {p : Packet}
    (hpay : p.payload = some ch.encode) (hlen : p.payloadLen ≤ ch.encode.length) :
    Obeys InRange (turkeyIsBlockedService p) (· = false) := by
  rw [obeys_turkeyIsBlockedService hpay hlen]
  cases hfound : findsService (cstr (inspected p ch.encode)) with
  | false => rfl
  | true =>
    have hlong := (findsService_iff.1 hfound).length_le
    have hpre : cstr (inspected p ch.encode) <+: ch.encode := (cstr_isPrefix _).trans (List.take_prefix _ _)
    have hsix : 6 < (cstr (inspected p ch.encode)).length := by omega
    have hbyte : (cstr (inspected p ch.encode))[6] = 0 := by
      have h := ch.byteAt_encode_six hfits
      rw [byteAt_of_lt (Nat.lt_of_lt_of_le hsix hpre.length_le), ← hpre.getElem hsix] at h
      exact UInt8.toNat_inj.1 h
    exact absurd (hbyte ▸ List.getElem_mem hsix) (zero_notMem_cstr _)

/-- The ClientHello for one of the services. -/
private def discordClientHello : ClientHello :=
  { sampleClientHello with hostName := ascii "discord.com", hostName_length := by decide +kernel }

/-- It names the service in the window, and it gets the large fragment size. -/
theorem detectsServices_clientHello :
    ¬ DetectsServices (packetTo 443 discordClientHello.encode) discordClientHello.encode ∧
      NamesService (inspected (packetTo 443 discordClientHello.encode) discordClientHello.encode) ∧
      (turkeyIsBlockedService (packetTo 443 discordClientHello.encode)).val = some false ∧
      (turkeyGetOptimalFragmentSize (packetTo 443 discordClientHello.encode)).val = some defaultHttpsFragmentSize := by
  have hnames : NamesService (inspected (packetTo 443 discordClientHello.encode) discordClientHello.encode) := by
    decide +kernel
  have hblocked : (turkeyIsBlockedService (packetTo 443 discordClientHello.encode)).val = some false := by
    decide +kernel
  refine ⟨fun h => ?_, hnames, hblocked, by decide +kernel⟩
  exact absurd ((h.1.2 false hblocked).2 hnames) Bool.false_ne_true

end GoodbyeDpi
