import GoodbyeDpi.Arguments
import GoodbyeDpi.CSem.Inet
import GoodbyeDpi.PacketParse

/-!
# Addresses as text and the configured DNS server (`src/utils/net_utils.c`, `src/tracking/dns_tracker.c`)

The IPv4 texts that `parse_ipv4_address` accepts are the ones that `ipv4_address_to_string` writes.  So the server that
DNS traffic is redirected to was written out in full somewhere: in the source, on the command line or in a configuration
file.  The array of 46 bytes never cuts an address down to another one.
-/

namespace GoodbyeDpi

open CSem History

/-! ### Addresses -/

/-- `INET_ADDRSTRLEN`. -/
def inetAddrstrlen : Nat := 16

/-- `htonl` on a little-endian host: the same exchange of bytes as `ntohl`. -/
def htonl (w : Nat) : Nat := ntohl w

/-- The four bytes as a word of a little-endian host. -/
def sAddr (octets : List UInt8) : Nat := octets.foldr (fun o w => o.toNat + 256 * w) 0

/-- The bytes of a word in memory. -/
def sAddrBytes (w : Nat) : List UInt8 :=
  [UInt8.ofNat w, UInt8.ofNat (w / 256), UInt8.ofNat (w / 65536), UInt8.ofNat (w / 16777216)]

/-- `parse_ipv4_address`; `none` where it returns -1. -/
def parseIpv4Address (ipStr : List UInt8) : Option UInt32 :=
  (inetPton4 ipStr).map fun octets => UInt32.ofNat (ntohl (sAddr octets))

/-- `ipv4_address_to_string`; `none` where it returns -1. -/
def ipv4AddressToString (ipAddr : UInt32) (strLen : Nat) : Option (List UInt8) :=
  if strLen < inetAddrstrlen then none else some (inetNtop4 (sAddrBytes (htonl ipAddr.toNat)))

/-- `is_private_ipv4`. -/
def isPrivateIpv4 (ipAddr : UInt32) : Bool :=
  ipAddr &&& 0xFF000000 == 0x0A000000 || ipAddr &&& 0xFFF00000 == 0xAC100000 ||
  ipAddr &&& 0xFFFF0000 == 0xC0A80000 || ipAddr &&& 0xFF000000 == 0x7F000000 ||
  ipAddr &&& 0xFFFF0000 == 0xA9FE0000

section

variable {ip : UInt32} {s octets : List UInt8}

private theorem ntohl_bytes {a b c d : Nat} (ha : a < 256) (hb : b < 256) (hc : c < 256) (hd : d < 256) :
    ntohl (a + b * 256 + c * 65536 + d * 16777216) = d + c * 256 + b * 65536 + a * 16777216 := by
  unfold ntohl
  have h0 : (a + b * 256 + c * 65536 + d * 16777216) % 256 = a := by omega
  have h1 : (a + b * 256 + c * 65536 + d * 16777216) / 256 % 256 = b := by omega
  have h2 : (a + b * 256 + c * 65536 + d * 16777216) / 65536 % 256 = c := by omega
  have h3 : (a + b * 256 + c * 65536 + d * 16777216) / 16777216 % 256 = d := by omega
  rw [h0, h1, h2, h3]
  omega

theorem ntohl_ntohl {w : Nat} (h : w < 2 ^ 32) : ntohl (ntohl w) = w := by
  have hbytes : w = w % 256 + w / 256 % 256 * 256 + w / 65536 % 256 * 65536 + w / 16777216 % 256 * 16777216 := by
    omega
  have hlt {n : Nat} : n % 256 < 256 := Nat.mod_lt n (by decide)
  rw [hbytes, ntohl_bytes hlt hlt hlt hlt, ntohl_bytes hlt hlt hlt hlt]

private theorem ntohl_lt (w : Nat) : ntohl w < 2 ^ 32 := by
  unfold ntohl
  omega

theorem sAddrBytes_sAddr (h : octets.length = 4) : sAddrBytes (sAddr octets) = octets := by
  obtain ⟨a, b, c, d, rfl⟩ := List.length_eq_four.1 h
  have hbyte {w : Nat} {o : UInt8} (hw : w % 256 = o.toNat) : UInt8.ofNat w = o := by
    apply UInt8.toNat_inj.1
    rw [UInt8.toNat_ofNat', hw]
  have ha := a.toNat_lt
  have hb := b.toNat_lt
  have hc := c.toNat_lt
  have hd := d.toNat_lt
  simp only [sAddrBytes, sAddr, List.foldr_cons, List.foldr_nil, List.cons.injEq, and_true]
  exact ⟨hbyte (by omega), hbyte (by omega), hbyte (by omega), hbyte (by omega)⟩

theorem sAddr_sAddrBytes {w : Nat} (h : w < 2 ^ 32) : sAddr (sAddrBytes w) = w := by
  simp only [sAddrBytes, sAddr, List.foldr_cons, List.foldr_nil, UInt8.toNat_ofNat']
  omega

private theorem sAddr_lt (h : octets.length = 4) : sAddr octets < 2 ^ 32 := by
  obtain ⟨a, b, c, d, rfl⟩ := List.length_eq_four.1 h
  have ha := a.toNat_lt
  have hb := b.toNat_lt
  have hc := c.toNat_lt
  have hd := d.toNat_lt
  simp only [sAddr, List.foldr_cons, List.foldr_nil]
  omega

theorem ipv4AddressToString_eq (ip : UInt32) :
    ipv4AddressToString ip inetAddrstrlen = some (inetNtop4 (sAddrBytes (ntohl ip.toNat))) :=
  if_neg (Nat.lt_irrefl _)

/-- The texts that are accepted are those that are written. -/
theorem ipv4_text_round_trip (s : List UInt8) (ip : UInt32) :
    parseIpv4Address s = some ip ↔ ipv4AddressToString ip inetAddrstrlen = some s := by
  rw [ipv4AddressToString_eq, parseIpv4Address, Option.map_eq_some_iff]
  constructor
  · rintro ⟨octets, hparse, rfl⟩
    obtain ⟨hlen, rfl⟩ := inetPton4_eq_some_iff.1 hparse
    rw [UInt32.toNat_ofNat_of_lt' (ntohl_lt _), ntohl_ntohl (sAddr_lt hlen), sAddrBytes_sAddr hlen]
  · intro h
    refine ⟨_, inetPton4_eq_some_iff.2 ⟨rfl, Option.some.inj h⟩, ?_⟩
    rw [sAddr_sAddrBytes (ntohl_lt _), ntohl_ntohl ip.toNat_lt, UInt32.ofNat_toNat]

/-- A mask that keeps the bits from `k` on. -/
private theorem and_shiftLeft (w k m : Nat) : w &&& (2 ^ m - 1) <<< k = (w >>> k % 2 ^ m) <<< k := by
  rw [← Nat.and_two_pow_sub_one_eq_mod]
  apply Nat.eq_of_testBit_eq
  intro i
  rw [Nat.testBit_and, Nat.testBit_shiftLeft, Nat.testBit_shiftLeft, Nat.testBit_and, Nat.testBit_shiftRight]
  by_cases hk : k ≤ i
  · rw [Nat.add_sub_cancel' hk]
    cases w.testBit i <;> simp [hk]
  · simp [hk]

/-- A comparison under such a mask is one of the bits that it keeps. -/
private theorem mask_beq {mask v : UInt32} (k m n : Nat) (hmask : mask.toNat = (2 ^ m - 1) <<< k) (hkm : k + m = 32)
    (hv : v.toNat = n <<< k) : (ip &&& mask == v) = true ↔ ip.toNat / 2 ^ k = n := by
  have hlt : ip.toNat / 2 ^ k < 2 ^ m := by
    rw [Nat.div_lt_iff_lt_mul (Nat.two_pow_pos k), ← Nat.pow_add, Nat.add_comm, hkm]
    exact ip.toNat_lt
  rw [beq_iff_eq, ← UInt32.toNat_inj, UInt32.toNat_and, hmask, hv, and_shiftLeft, Nat.shiftRight_eq_div_pow,
    Nat.mod_eq_of_lt hlt, Nat.shiftLeft_eq, Nat.shiftLeft_eq]
  exact Nat.mul_left_inj (Nat.two_pow_pos k).ne'

/-- `is_private_ipv4` on the address of a text: the blocks 10.0.0.0/8, 172.16.0.0/12, 192.168.0.0/16, 127.0.0.0/8 and
169.254.0.0/16. -/
theorem isPrivateIpv4_text (a b c d : UInt8) : ∃ ip, parseIpv4Address (inetNtop4 [a, b, c, d]) = some ip ∧
    (isPrivateIpv4 ip = true ↔ a = 10 ∨ a = 172 ∧ 16 ≤ b ∧ b ≤ 31 ∨ a = 192 ∧ b = 168 ∨ a = 127 ∨
      a = 169 ∧ b = 254) := by
  have ha := a.toNat_lt
  have hb := b.toNat_lt
  have hc := c.toNat_lt
  have hd := d.toNat_lt
  have hs : sAddr [a, b, c, d] = a.toNat + b.toNat * 256 + c.toNat * 65536 + d.toNat * 16777216 := by
    simp only [sAddr, List.foldr_cons, List.foldr_nil]
    omega
  have hip : (UInt32.ofNat (ntohl (sAddr [a, b, c, d]))).toNat =
      d.toNat + c.toNat * 256 + b.toNat * 65536 + a.toNat * 16777216 := by
    rw [UInt32.toNat_ofNat_of_lt' (ntohl_lt _), hs, ntohl_bytes ha hb hc hd]
  have h24 : (UInt32.ofNat (ntohl (sAddr [a, b, c, d]))).toNat / 2 ^ 24 = a.toNat := by omega
  have h20 : (UInt32.ofNat (ntohl (sAddr [a, b, c, d]))).toNat / 2 ^ 20 = a.toNat * 16 + b.toNat / 16 := by omega
  have h16 : (UInt32.ofNat (ntohl (sAddr [a, b, c, d]))).toNat / 2 ^ 16 = a.toNat * 256 + b.toNat := by omega
  refine ⟨UInt32.ofNat (ntohl (sAddr [a, b, c, d])), ?_, ?_⟩
  · rw [parseIpv4Address, inetPton4_inetNtop4 rfl]
    rfl
  · rw [isPrivateIpv4, Bool.or_eq_true, Bool.or_eq_true, Bool.or_eq_true, Bool.or_eq_true,
      mask_beq 24 8 10 (by decide) rfl (by decide), mask_beq 20 12 (172 * 16 + 1) (by decide) rfl (by decide),
      mask_beq 16 16 (192 * 256 + 168) (by decide) rfl (by decide), mask_beq 24 8 127 (by decide) rfl (by decide),
      mask_beq 16 16 (169 * 256 + 254) (by decide) rfl (by decide), h24, h20, h16]
    simp only [← UInt8.toNat_inj, UInt8.le_iff_toNat_le, UInt8.reduceToNat]
    clear hip hs h24 h20 h16
    omega

private theorem length_printDecimal {n : Nat} (h : n ≤ 255) : (printDecimal n).length ≤ 3 := by
  by_cases h10 : n < 10
  · rw [printDecimal_of_lt h10]
    simp
  have htens : n / 10 * 10 + n % 10 = n := by omega
  rw [← htens, printDecimal_append (by omega) (Nat.mod_lt n (by decide)), List.length_append, List.length_singleton]
  by_cases h100 : n / 10 < 10
  · rw [printDecimal_of_lt h100]
    simp
  · have hhundreds : n / 10 / 10 * 10 + n / 10 % 10 = n / 10 := by omega
    rw [← hhundreds, printDecimal_append (by omega) (Nat.mod_lt _ (by decide)), printDecimal_of_lt (by omega)]
    simp

private theorem zero_notMem_printDecimal {n : Nat} (h : n ≤ 255) : (0 : UInt8) ∉ printDecimal n := by
  have hdigit {d : Nat} (hd : d < 10) : (0 : UInt8) ∉ [UInt8.ofNat (48 + d)] := by
    intro hmem
    have hzero := congrArg UInt8.toNat (List.mem_singleton.1 hmem)
    rw [UInt8.toNat_zero, toNat_ofNat_of_le (by omega)] at hzero
    omega
  induction n using Nat.strongRecOn with
  | ind n ih =>
    by_cases hsmall : n < 10
    · rw [printDecimal_of_lt hsmall]
      exact hdigit hsmall
    · have hsplit : n / 10 * 10 + n % 10 = n := by omega
      have hlast : n % 10 < 10 := Nat.mod_lt n (by decide)
      rw [← hsplit, printDecimal_append (by omega) hlast, List.mem_append]
      exact not_or.2 ⟨ih (n / 10) (by omega) (by omega), hdigit hlast⟩

/-- There is no NUL in a text. -/
private theorem cstr_text (h : ipv4AddressToString ip inetAddrstrlen = some s) : cstr s = s := by
  rw [ipv4AddressToString_eq] at h
  obtain rfl := Option.some.inj h
  have hbyte (o : UInt8) : (0 : UInt8) ∉ printDecimal o.toNat :=
    zero_notMem_printDecimal (Nat.le_of_lt_succ o.toNat_lt)
  have hnul (a b c d : UInt8) : (0 : UInt8) ∉ inetNtop4 [a, b, c, d] := by
    simp [inetNtop4, List.intercalate, hbyte]
  exact cstr_of_notMem (hnul _ _ _ _)

/-- A text is shorter than its array. -/
private theorem length_text (h : ipv4AddressToString ip inetAddrstrlen = some s) : s.length < inetAddrstrlen := by
  rw [ipv4AddressToString_eq] at h
  obtain rfl := Option.some.inj h
  have hbyte (o : UInt8) : (printDecimal o.toNat).length ≤ 3 := length_printDecimal (Nat.le_of_lt_succ o.toNat_lt)
  have hlen (a b c d : UInt8) : (inetNtop4 [a, b, c, d]).length ≤ 15 := by
    have ha := hbyte a
    have hb := hbyte b
    have hc := hbyte c
    have hd := hbyte d
    simp only [inetNtop4, List.intercalate, List.map_cons, List.map_nil, List.intersperse_cons_cons,
      List.intersperse_singleton, List.flatten_cons, List.flatten_nil, List.length_append, List.length_cons,
      List.length_nil]
    omega
  exact Nat.lt_succ_of_le (hlen _ _ _ _)

end

/-! ### The configured server -/

/-- `dns_get_configured_server`; `none` where it returns -1. -/
def dnsGetConfiguredServer (cfg : Config) : Option (UInt32 × UInt16) :=
  if cfg.dnsServerV4.headD 0 = 0 then none
  else (parseIpv4Address (cstr cfg.dnsServerV4)).map fun serverIp => (serverIp, cfg.dnsPortV4)

/-- `dns_should_redirect`. -/
def dnsShouldRedirect (cfg : Config) (p : Packet) : Bool :=
  if p.type ≠ .ipv4UdpData ∨ p.dstPort ≠ 53 then false else cfg.dnsRedirectIpv4

section

variable {files : List UInt8 → Option (List UInt8)} {cfg cfg' : Config} {W : List UInt8 → Prop}
  {r : OptResult CliOption} {rs : List (OptResult CliOption)}

/-- The array of the server holds a text of `W`, cut to its size. -/
structure ServerIn (W : List UInt8 → Prop) (cfg : Config) : Prop where
  last : cfg.dnsServerV4.drop (inet6Addrstrlen - 1) = [0]
  text : ∃ s, W s ∧ cstr cfg.dnsServerV4 = (cstr s).take (inet6Addrstrlen - 1)

/-- `strncpy` over an array whose last byte is 0. -/
private theorem cstr_strncpy {old s : List UInt8} {n : Nat} (hold : old.drop n = [0]) :
    cstr (strncpy old s n) = (cstr s).take n := by
  have htail : cstr (s.take n ++ (List.replicate (n - s.length) 0 ++ [0])) = cstr (s.take n) := by
    cases hzeros : n - s.length with
    | zero => exact cstr_append_zero _ _
    | succ k => exact cstr_append_zero _ _
  rw [strncpy, hold, List.append_assoc, htail]
  exact List.take_takeWhile.symm

private theorem serverIn_strncpy (hcfg : ServerIn W cfg) {s : List UInt8} (hs : W s) (cfg' : Config)
    (hserver : cfg'.dnsServerV4 = strncpy cfg.dnsServerV4 s (inet6Addrstrlen - 1)) : ServerIn W cfg' where
  last := by rw [hserver, drop_strncpy, hcfg.last]
  text := ⟨s, hs, by rw [hserver, cstr_strncpy hcfg.last]⟩

theorem ServerIn.congr (hcfg : ServerIn W cfg) (h : cfg'.dnsServerV4 = cfg.dnsServerV4) : ServerIn W cfg' where
  last := by rw [h, hcfg.last]
  text := by rw [h]; exact hcfg.text

theorem serverIn_setKey (hcfg : ServerIn W cfg) (k : ConfigKey) (value : List UInt8)
    (hW : k = .dnsServerV4 → W value) : ServerIn W (setKey cfg k value) := by
  cases k with
  | dnsServerV4 => exact serverIn_strncpy hcfg (hW rfl) _ rfl
  | _ => exact hcfg.congr rfl

/-- The values that a file gives to the key of the server. -/
def FileServer (bytes s : List UInt8) : Prop :=
  ∃ line ∈ fgetsLines 512 bytes, ∃ key, configKey? key = some .dnsServerV4 ∧
    configParseLine (cstr line) = .setting key s

theorem serverIn_configLoadLines (lines : List (List UInt8)) (hcfg : ServerIn W cfg)
    (hW : ∀ line ∈ lines, ∀ key value, configKey? key = some .dnsServerV4 →
      configParseLine (cstr line) = .setting key value → W value) : ServerIn W (configLoadLines lines cfg).2 := by
  induction lines generalizing cfg with
  | nil => exact hcfg
  | cons line lines ih =>
    have hrest : ∀ line' ∈ lines, ∀ key value, configKey? key = some .dnsServerV4 →
        configParseLine (cstr line') = .setting key value → W value :=
      fun line' hline' => hW line' (List.mem_cons_of_mem _ hline')
    rw [configLoadLines]
    cases hparse : configParseLine (cstr line) with
    | error => exact hcfg
    | skip => exact ih hcfg hrest
    | setting key value =>
      refine ih ?_ hrest
      rw [configSetValue]
      cases hkey : configKey? key with
      | none => exact hcfg
      | some k =>
        refine serverIn_setKey hcfg k value fun hk => ?_
        subst hk
        exact hW line List.mem_cons_self key value hkey hparse

theorem dnsServerV4_configApplyLegacyMode (mode : Nat) (cfg : Config) :
    (configApplyLegacyMode mode cfg).2.dnsServerV4 = cfg.dnsServerV4 ∧
      (configApplyLegacyMode mode cfg).2.dnsRedirectIpv4 = cfg.dnsRedirectIpv4 := by
  unfold configApplyLegacyMode
  split <;> exact ⟨rfl, rfl⟩

/-- The options that can set the server. -/
def SetsServer : OptResult CliOption → Prop
  | .opt .dnsRedirectV4 _ => True
  | .opt .config _ => True
  | _ => False

/-- The others keep it. -/
private theorem meets_keepsServer (files : List UInt8 → Option (List UInt8)) (cfg : Config) (hr : ¬ SetsServer r) :
    (optionStep files cfg r).Meets fun cfg' =>
      cfg'.dnsServerV4 = cfg.dnsServerV4 ∧ cfg'.dnsRedirectIpv4 = cfg.dnsRedirectIpv4 := by
  cases r with
  | question => exact (by decide : (-1 : Int) ≠ 0)
  | opt val optarg =>
    cases val with
    | help => exact (by decide : (1 : Int) ≠ 0)
    | version => exact (by decide : (1 : Int) ≠ 0)
    | config => exact absurd trivial hr
    | dnsRedirectV4 => exact absurd trivial hr
    | pidfile | logfile | dnsRedirectV6 =>
      rw [optionStep]
      exact meets_textOption fun s => ⟨rfl, rfl⟩
    | fragmentHttp | fragmentHttps | dnsPort | queueNum =>
      rw [optionStep]
      exact meets_numberOption fun _ _ => ⟨rfl, rfl⟩
    | mode digit =>
      rw [optionStep]
      split
      · exact dnsServerV4_configApplyLegacyMode digit cfg
      · exact ⟨rfl, rfl⟩
    | daemon | verbose | debug | syslog | nativeFrag | reverseFrag => exact ⟨rfl, rfl⟩
    | hostMixedcase | additionalSpace | hostRemovespace => exact ⟨rfl, rfl⟩

/-- The byte that `--dns-redirect-v4` writes behind the text is 0 already. -/
private theorem set_strncpy {old s : List UInt8} {n : Nat} (hold : old.drop n = [0]) :
    (strncpy old s n).set n 0 = strncpy old s n := by
  have hlast : (strncpy old s n)[n]? = some 0 := by
    rw [← List.head?_drop, drop_strncpy, hold]
    rfl
  obtain ⟨hlt, hget⟩ := List.getElem?_eq_some_iff.1 hlast
  rw [← hget]
  exact List.set_getElem_self hlt

/-- The array with the text of `--dns-redirect-v4`, which turns the redirection on. -/
private theorem meets_dnsRedirectV4 (files : List UInt8 → Option (List UInt8))
    (hcfg : cfg.dnsServerV4.drop (inet6Addrstrlen - 1) = [0]) (optarg : List UInt8) :
    (optionStep files cfg (.opt .dnsRedirectV4 optarg)).Meets fun cfg' =>
      optarg.length < inet6Addrstrlen ∧ cfg'.dnsRedirectIpv4 = true ∧
        cfg'.dnsServerV4 = strncpy cfg.dnsServerV4 optarg (inet6Addrstrlen - 1) := by
  rw [optionStep]
  unfold textOption
  split
  · exact (by decide : (-1 : Int) ≠ 0)
  · exact ⟨by omega, rfl, set_strncpy hcfg⟩

theorem OptionStep.Meets.imp {P Q : Config → Prop} {step : OptionStep} (h : step.Meets P) (hPQ : ∀ cfg, P cfg → Q cfg) :
    step.Meets Q := by
  cases step with
  | next cfg => exact hPQ cfg h
  | finish result cfg => exact h

/-- One option. -/
private theorem meets_serverIn (files : List UInt8 → Option (List UInt8)) (hcfg : ServerIn W cfg)
    (r : OptResult CliOption) (hopt : ∀ optarg, r = .opt .dnsRedirectV4 optarg → W optarg)
    (hfile : ∀ path bytes s, r = .opt .config path → files path = some bytes → FileServer bytes s → W s) :
    (optionStep files cfg r).Meets (ServerIn W) := by
  by_cases hr : SetsServer r
  · cases r with
    | question => exact hr.elim
    | opt val optarg =>
      cases val with
      | dnsRedirectV4 =>
        refine (meets_dnsRedirectV4 files hcfg.last optarg).imp ?_
        rintro cfg' ⟨-, -, hserver⟩
        exact serverIn_strncpy hcfg (hopt optarg rfl) cfg' hserver
      | config =>
        rw [optionStep]
        refine meets_configOption ?_
        cases hbytes : files optarg with
        | none => exact hcfg
        | some bytes =>
          exact serverIn_configLoadLines _ hcfg fun line hline key value hkey hparse =>
            hfile optarg bytes value rfl hbytes ⟨line, hline, key, hkey, hparse⟩
      | _ => exact hr.elim
  · exact (meets_keepsServer files cfg hr).imp fun cfg' h => hcfg.congr h.1

theorem serverIn_parseLoop (hcfg : ServerIn W cfg) (hopt : ∀ optarg, .opt .dnsRedirectV4 optarg ∈ rs → W optarg)
    (hfile : ∀ path bytes s, .opt .config path ∈ rs → files path = some bytes → FileServer bytes s → W s)
    (h : parseLoop files rs cfg = (0, cfg')) : ServerIn W cfg' := by
  induction rs generalizing cfg with
  | nil =>
    cases h
    exact hcfg
  | cons r rs ih =>
    obtain ⟨mid, hstep, hrest⟩ := parseLoop_cons_zero h
    have hmid := meets_serverIn files hcfg r
      (fun optarg hr => hopt optarg (hr ▸ List.mem_cons_self))
      (fun path bytes s hr => hfile path bytes s (hr ▸ List.mem_cons_self))
    rw [hstep] at hmid
    exact ih hmid (fun optarg h => hopt optarg (List.mem_cons_of_mem _ h))
      (fun path bytes s h => hfile path bytes s (List.mem_cons_of_mem _ h)) hrest

private theorem parseLoop_of_mainConfig {posixlyCorrect : Bool} {args : List (List UInt8)}
    (h : mainConfig files posixlyCorrect args = some cfg) :
    parseLoop files (cliOptions posixlyCorrect args) configInit = (0, cfg) := by
  unfold mainConfig at h
  split at h
  · cases h
  · split at h
    · cases h
    · rename_i hzero hvalid
      cases h
      exact Prod.ext (Decidable.not_not.1 hzero) rfl

/-- The texts that name a server: the default, an argument of `--dns-redirect-v4`, or a value in a file that `--config`
names. -/
def WrittenServer (files : List UInt8 → Option (List UInt8)) (rs : List (OptResult CliOption)) (s : List UInt8) :
    Prop :=
  s = ascii "1.1.1.1" ∨ .opt .dnsRedirectV4 s ∈ rs ∨
    ∃ path bytes, .opt .config path ∈ rs ∧ files path = some bytes ∧ FileServer bytes s

/-- The server of an accepted command line was written in full: the text of its address is one of those that name a
server, up to a NUL in it. -/
theorem configured_server_was_written (files : List UInt8 → Option (List UInt8)) (posixlyCorrect : Bool)
    (args : List (List UInt8)) (cfg : Config) (serverIp : UInt32) (serverPort : UInt16)
    (h : mainConfig files posixlyCorrect args = some cfg)
    (hserver : dnsGetConfiguredServer cfg = some (serverIp, serverPort)) :
    ∃ s, WrittenServer files (cliOptions posixlyCorrect args) s ∧
      ipv4AddressToString serverIp inetAddrstrlen = some (cstr s) ∧ serverPort = cfg.dnsPortV4 := by
  have hinit : ServerIn (WrittenServer files (cliOptions posixlyCorrect args)) configInit :=
    ⟨by decide, ascii "1.1.1.1", Or.inl rfl, by decide⟩
  have hcfg := serverIn_parseLoop hinit (fun optarg hmem => Or.inr (Or.inl hmem))
    (fun path bytes s hmem hbytes hs => Or.inr (Or.inr ⟨path, bytes, hmem, hbytes, hs⟩)) (parseLoop_of_mainConfig h)
  obtain ⟨s, hs, htext⟩ := hcfg.text
  unfold dnsGetConfiguredServer at hserver
  split at hserver
  · cases hserver
  obtain ⟨ip, hparse, heq⟩ := Option.map_eq_some_iff.1 hserver
  cases heq
  rw [htext] at hparse
  have hprint := (ipv4_text_round_trip _ _).1 hparse
  -- what is shorter than the array has not been cut
  have hlen := length_text hprint
  rw [List.length_take] at hlen
  have hshort : (cstr s).length ≤ inet6Addrstrlen - 1 := by
    change min 45 (cstr s).length < 16 at hlen
    change (cstr s).length ≤ 45
    omega
  rw [List.take_of_length_le hshort] at hprint
  exact ⟨s, hs, hprint, rfl⟩

/-- A file system with one configuration file. -/
def serverFiles (path : List UInt8) : Option (List UInt8) :=
  if path = ascii "dpi.conf" then some (ascii "http_fragment_size=4\ndns_server_v4=9.9.9.9\n") else none

/-- The configuration of `--dns-redirect-v4 8.8.4.4 --config dpi.conf`. -/
def fileServerConfig : Config :=
  { configInit with
    httpFragmentSize := 4
    dnsRedirectIpv4 := true
    dnsServerV4 := charArray inet6Addrstrlen "9.9.9.9" }

theorem configured_server_was_written_file :
    ∃ s, WrittenServer serverFiles
        (cliOptions false [ascii "--dns-redirect-v4", ascii "8.8.4.4", ascii "--config", ascii "dpi.conf"]) s ∧
      ipv4AddressToString 0x09090909 inetAddrstrlen = some (cstr s) ∧ (53 : UInt16) = fileServerConfig.dnsPortV4 :=
  configured_server_was_written serverFiles false
    [ascii "--dns-redirect-v4", ascii "8.8.4.4", ascii "--config", ascii "dpi.conf"] fileServerConfig 0x09090909 53
    (by decide +kernel) (by decide +kernel)

private theorem keepsServer_parseLoop (h : parseLoop files rs cfg = (0, cfg')) (hrs : ∀ r ∈ rs, ¬ SetsServer r) :
    cfg'.dnsServerV4 = cfg.dnsServerV4 ∧ cfg'.dnsRedirectIpv4 = cfg.dnsRedirectIpv4 := by
  induction rs generalizing cfg with
  | nil =>
    cases h
    exact ⟨rfl, rfl⟩
  | cons r rs ih =>
    obtain ⟨mid, hstep, hrest⟩ := parseLoop_cons_zero h
    have hmeets := meets_keepsServer files cfg (hrs r List.mem_cons_self)
    rw [hstep] at hmeets
    obtain ⟨hserver, hredirect⟩ := ih hrest fun r' hr' => hrs r' (List.mem_cons_of_mem r hr')
    exact ⟨hserver.trans hmeets.1, hredirect.trans hmeets.2⟩

/-- What `parse_arguments` has done before a step. -/
private theorem parseLoop_append {pre post : List (OptResult CliOption)}
    (h : parseLoop files (pre ++ post) cfg = (0, cfg')) :
    ∃ mid, parseLoop files pre cfg = (0, mid) ∧ parseLoop files post mid = (0, cfg') := by
  induction pre generalizing cfg with
  | nil => exact ⟨cfg, rfl, h⟩
  | cons r pre ih =>
    obtain ⟨mid, hstep, hrest⟩ := parseLoop_cons_zero h
    obtain ⟨mid', hpre, hpost⟩ := ih hrest
    refine ⟨mid', ?_, hpost⟩
    rw [parseLoop, hstep]
    exact hpre

/-- When `--dns-redirect-v4` with the text of an address is the last option that can set the server, the DNS queries
are redirected, and to this address. -/
theorem last_dnsRedirectV4_decides (files : List UInt8 → Option (List UInt8)) (posixlyCorrect : Bool)
    (args : List (List UInt8)) (cfg : Config) (pre post : List (OptResult CliOption)) (text : List UInt8)
    (serverIp : UInt32)
    (h : mainConfig files posixlyCorrect args = some cfg)
    (hlast : Latest SetsServer (cliOptions posixlyCorrect args) pre (.opt .dnsRedirectV4 text) post)
    (htext : ipv4AddressToString serverIp inetAddrstrlen = some text) :
    dnsGetConfiguredServer cfg = some (serverIp, cfg.dnsPortV4) ∧
      ∀ p : Packet, dnsShouldRedirect cfg p = true ↔ p.type = .ipv4UdpData ∧ p.dstPort = 53 := by
  obtain ⟨hsplit, -, hlater⟩ := hlast
  have hparse := parseLoop_of_mainConfig h
  rw [hsplit] at hparse
  obtain ⟨mid, hpre, hrest⟩ := parseLoop_append hparse
  have hinit : ServerIn (fun _ => True) configInit := ⟨by decide, ascii "1.1.1.1", trivial, by decide⟩
  have hmid := serverIn_parseLoop hinit (fun _ _ => trivial) (fun _ _ _ _ _ _ => trivial) hpre
  obtain ⟨mid', hstep, hpost⟩ := parseLoop_cons_zero hrest
  have hmeets := meets_dnsRedirectV4 files hmid.last text
  rw [hstep] at hmeets
  obtain ⟨-, hredirect, hserver⟩ := hmeets
  obtain ⟨hserver', hredirect'⟩ := keepsServer_parseLoop hpost hlater
  -- a text of an address has no NUL and fits
  have hparsed : parseIpv4Address text = some serverIp := (ipv4_text_round_trip text serverIp).2 htext
  have hcstr : cstr cfg.dnsServerV4 = text := by
    rw [hserver', hserver, cstr_strncpy hmid.last, cstr_text htext, List.take_of_length_le]
    have := length_text htext
    change text.length < 16 at this
    change text.length ≤ 45
    omega
  have hhead : cfg.dnsServerV4.headD 0 ≠ 0 := by
    intro h0
    have hnil : cstr cfg.dnsServerV4 = [] := by
      cases hbytes : cfg.dnsServerV4 with
      | nil => rfl
      | cons c bytes =>
        rw [hbytes] at h0
        obtain rfl : c = 0 := h0
        rfl
    rw [hcstr] at hnil
    rw [hnil] at hparsed
    cases hparsed
  refine ⟨?_, fun p => ?_⟩
  · rw [dnsGetConfiguredServer, if_neg hhead, hcstr, hparsed]
    rfl
  · rw [dnsShouldRedirect, hredirect', hredirect]
    by_cases htype : p.type = .ipv4UdpData <;> by_cases hport : p.dstPort = 53 <;> simp [htype, hport]

/-- A server, a file with a server, another server, and two options that set none. -/
def redirectArgs : List (List UInt8) :=
  [ascii "--dns-redirect-v4", ascii "1.2.3.4", ascii "--config", ascii "dpi.conf", ascii "--dns-redirect-v4",
    ascii "8.8.4.4", ascii "--dns-port", ascii "5353", ascii "--host-mixedcase"]

/-- The configuration of these arguments. -/
def redirectConfig : Config :=
  { configInit with
    httpFragmentSize := 4
    hostMixedcase := true
    dnsRedirectIpv4 := true
    dnsServerV4 := charArray inet6Addrstrlen "8.8.4.4"
    dnsPortV4 := 5353
    dnsPortV6 := 5353 }

theorem last_dnsRedirectV4_decides_8844 :
    dnsGetConfiguredServer redirectConfig = some (0x08080404, redirectConfig.dnsPortV4) ∧
      ∀ p : Packet, dnsShouldRedirect redirectConfig p = true ↔ p.type = .ipv4UdpData ∧ p.dstPort = 53 :=
  last_dnsRedirectV4_decides serverFiles false redirectArgs redirectConfig
    [.opt .dnsRedirectV4 (ascii "1.2.3.4"), .opt .config (ascii "dpi.conf")]
    [.opt .dnsPort (ascii "5353"), .opt .hostMixedcase []] (ascii "8.8.4.4") 0x08080404 (by decide +kernel)
    ⟨by decide +kernel, trivial, by simp [SetsServer]⟩ (by decide +kernel)

end

end GoodbyeDpi
