import GoodbyeDpi.Packet
import GoodbyeDpi.KeyedRecord
import GoodbyeDpi.CSem.CString
import GoodbyeDpi.CSem.Text

/-!
# The configuration file (`src/core/config.c`)

`config_load_file` reads the file line by line with `fgets`, splits every line with `config_parse_line` and hands key
and value to `config_set_value`, whose result it does not look at.
-/

namespace GoodbyeDpi

open CSem

/-! ### Lines -/

/-- The result of `config_parse_line`: 1, -1, or 0 with the key and the value. -/
inductive ParsedLine where
  | skip
  | error
  | setting (key value : List UInt8)
deriving DecidableEq, Repr

/-- What is skipped before a value. -/
def isBlank (c : UInt8) : Bool := c == 32 || c == 9

/-- What is removed after a value. -/
def isTrailing (c : UInt8) : Bool := c == 32 || c == 9 || c == 10 || c == 13

/-- The loop that removes the white space at the end of the value; `last` is the index of its last byte.  It stops
at the first byte, which is never removed. -/
def trimLoop (value : List UInt8) : Nat → List UInt8
  | 0 => value
  | last + 1 => if isTrailing (value.getD (last + 1) 0) then trimLoop (value.take (last + 1)) last else value

/-- `sizeof(config_line->key)`. -/
def configKeySize : Nat := 64

/-- `sizeof(config_line->value)`. -/
def configValueSize : Nat := 256

/-- The part of `config_parse_line` after the `=`. -/
def configParseValue (key rest : List UInt8) : ParsedLine :=
  if configValueSize ≤ (rest.dropWhile isBlank).length then .error
  else .setting key (trimLoop (rest.dropWhile isBlank) ((rest.dropWhile isBlank).length - 1))

/-- `config_parse_line` on a string; 35 is `#`, 10 a newline and 61 the `=`. -/
def configParseLine (line : List UInt8) : ParsedLine :=
  if line.headD 0 = 0 ∨ line.headD 0 = 35 ∨ line.headD 0 = 10 then .skip
  else
    match line.idxOf? 61 with
    | none => .error
    | some keyLen =>
      if configKeySize ≤ keyLen then .error
      else configParseValue (line.take keyLen) (line.drop (keyLen + 1))

/-! ### Keys -/

/-- The keys that `config_set_value` knows. -/
inductive ConfigKey where
  | httpFragmentSize
  | httpsFragmentSize
  | nativeFragmentation
  | reverseFragmentation
  | hostMixedcase
  | additionalSpace
  | hostRemovespace
  | wrongChecksum
  | wrongSequence
  | autoTtl
  | fakePacket
  | dnsServerV4
  | dnsServerV6
  | dnsRedirectIpv4
  | dnsRedirectIpv6
  | debug
  | verbose
  | daemon
deriving DecidableEq, Repr

namespace ConfigKey

/-- The keys in the order in which they are compared. -/
def all : List ConfigKey :=
  [httpFragmentSize, httpsFragmentSize, nativeFragmentation, reverseFragmentation, hostMixedcase, additionalSpace,
    hostRemovespace, wrongChecksum, wrongSequence, autoTtl, fakePacket, dnsServerV4, dnsServerV6, dnsRedirectIpv4,
    dnsRedirectIpv6, debug, verbose, daemon]

def name : ConfigKey → List UInt8
  | httpFragmentSize => ascii "http_fragment_size"
  | httpsFragmentSize => ascii "https_fragment_size"
  | nativeFragmentation => ascii "native_fragmentation"
  | reverseFragmentation => ascii "reverse_fragmentation"
  | hostMixedcase => ascii "host_mixedcase"
  | additionalSpace => ascii "additional_space"
  | hostRemovespace => ascii "host_removespace"
  | wrongChecksum => ascii "wrong_checksum"
  | wrongSequence => ascii "wrong_sequence"
  | autoTtl => ascii "auto_ttl"
  | fakePacket => ascii "fake_packet"
  | dnsServerV4 => ascii "dns_server_v4"
  | dnsServerV6 => ascii "dns_server_v6"
  | dnsRedirectIpv4 => ascii "dns_redirect_ipv4"
  | dnsRedirectIpv6 => ascii "dns_redirect_ipv6"
  | debug => ascii "debug"
  | verbose => ascii "verbose"
  | daemon => ascii "daemon"

end ConfigKey

/-- The `strcmp` chain of `config_set_value`. -/
def configKey? (key : List UInt8) : Option ConfigKey := ConfigKey.all.find? fun k => k.name == key

/-- `strcmp(value, "true") == 0 || strcmp(value, "1") == 0`. -/
def isTrueText (value : List UInt8) : Bool := value == ascii "true" || value == ascii "1"

/-- The assignment that `config_set_value` makes for a key. -/
def setKey (cfg : Config) (k : ConfigKey) (value : List UInt8) : Config :=
  match k with
  | .httpFragmentSize => { cfg with httpFragmentSize := toUnsigned (atoi value) }
  | .httpsFragmentSize => { cfg with httpsFragmentSize := toUnsigned (atoi value) }
  | .nativeFragmentation => { cfg with nativeFragmentation := isTrueText value }
  | .reverseFragmentation => { cfg with reverseFragmentation := isTrueText value }
  | .hostMixedcase => { cfg with hostMixedcase := isTrueText value }
  | .additionalSpace => { cfg with additionalSpace := isTrueText value }
  | .hostRemovespace => { cfg with hostRemovespace := isTrueText value }
  | .wrongChecksum => { cfg with wrongChecksum := isTrueText value }
  | .wrongSequence => { cfg with wrongSequence := isTrueText value }
  | .autoTtl => { cfg with autoTtl := isTrueText value }
  | .fakePacket => { cfg with fakePacket := isTrueText value }
  | .dnsServerV4 => { cfg with dnsServerV4 := strncpy cfg.dnsServerV4 value (inet6Addrstrlen - 1) }
  | .dnsServerV6 => { cfg with dnsServerV6 := strncpy cfg.dnsServerV6 value (inet6Addrstrlen - 1) }
  | .dnsRedirectIpv4 => { cfg with dnsRedirectIpv4 := isTrueText value }
  | .dnsRedirectIpv6 => { cfg with dnsRedirectIpv6 := isTrueText value }
  | .debug => { cfg with debugMode := isTrueText value }
  | .verbose => { cfg with verboseMode := isTrueText value }
  | .daemon => { cfg with daemonMode := isTrueText value }

/-- `config_set_value`. -/
def configSetValue (cfg : Config) (key value : List UInt8) : Int × Config :=
  match configKey? key with
  | some k => (0, setKey cfg k value)
  | none => (-1, cfg)

/-! ### Files -/

/-- The loop of `config_load_file` over the lines as `fgets` leaves them in the array. -/
def configLoadLines : List (List UInt8) → Config → Int × Config
  | [], cfg => (0, cfg)
  | line :: lines, cfg =>
    match configParseLine (cstr line) with
    | .setting key value => configLoadLines lines (configSetValue cfg key value).2
    | .error => (-1, cfg)
    | .skip => configLoadLines lines cfg

/-- `config_load_file`; a file that cannot be opened is `none`. -/
def configLoadFile (file : Option (List UInt8)) (cfg : Config) : Int × Config :=
  match file with
  | none => (-1, cfg)
  | some bytes => configLoadLines (fgetsLines 512 bytes) cfg

/-! ### The fields behind the keys -/

/-- The content of a field: a number, a flag, or the bytes of an array. -/
inductive ConfigField where
  | number (n : UInt32)
  | flag (b : Bool)
  | text (bytes : List UInt8)
deriving DecidableEq, Repr

namespace ConfigField

def toNumber : ConfigField → UInt32
  | number n => n
  | _ => 0

def toFlag : ConfigField → Bool
  | flag b => b
  | _ => false

def toText : ConfigField → List UInt8
  | text bytes => bytes
  | _ => []

end ConfigField

/-- The field that a key sets. -/
def Config.field (cfg : Config) : ConfigKey → ConfigField
  | .httpFragmentSize => .number cfg.httpFragmentSize
  | .httpsFragmentSize => .number cfg.httpsFragmentSize
  | .nativeFragmentation => .flag cfg.nativeFragmentation
  | .reverseFragmentation => .flag cfg.reverseFragmentation
  | .hostMixedcase => .flag cfg.hostMixedcase
  | .additionalSpace => .flag cfg.additionalSpace
  | .hostRemovespace => .flag cfg.hostRemovespace
  | .wrongChecksum => .flag cfg.wrongChecksum
  | .wrongSequence => .flag cfg.wrongSequence
  | .autoTtl => .flag cfg.autoTtl
  | .fakePacket => .flag cfg.fakePacket
  | .dnsServerV4 => .text cfg.dnsServerV4
  | .dnsServerV6 => .text cfg.dnsServerV6
  | .dnsRedirectIpv4 => .flag cfg.dnsRedirectIpv4
  | .dnsRedirectIpv6 => .flag cfg.dnsRedirectIpv6
  | .debug => .flag cfg.debugMode
  | .verbose => .flag cfg.verboseMode
  | .daemon => .flag cfg.daemonMode

/-- The configuration with the given fields. -/
def Config.withFields (cfg : Config) (f : ConfigKey → ConfigField) : Config :=
  { cfg with
    httpFragmentSize := (f .httpFragmentSize).toNumber
    httpsFragmentSize := (f .httpsFragmentSize).toNumber
    nativeFragmentation := (f .nativeFragmentation).toFlag
    reverseFragmentation := (f .reverseFragmentation).toFlag
    hostMixedcase := (f .hostMixedcase).toFlag
    additionalSpace := (f .additionalSpace).toFlag
    hostRemovespace := (f .hostRemovespace).toFlag
    wrongChecksum := (f .wrongChecksum).toFlag
    wrongSequence := (f .wrongSequence).toFlag
    autoTtl := (f .autoTtl).toFlag
    fakePacket := (f .fakePacket).toFlag
    dnsServerV4 := (f .dnsServerV4).toText
    dnsServerV6 := (f .dnsServerV6).toText
    dnsRedirectIpv4 := (f .dnsRedirectIpv4).toFlag
    dnsRedirectIpv6 := (f .dnsRedirectIpv6).toFlag
    debugMode := (f .debug).toFlag
    verboseMode := (f .verbose).toFlag
    daemonMode := (f .daemon).toFlag }

/-- What a value makes of a field, by the kind of the field. -/
def ConfigField.assign (value : List UInt8) : ConfigField → ConfigField
  | .number _ => .number (toUnsigned (atoi value))
  | .flag _ => .flag (isTrueText value)
  | .text bytes => .text (strncpy bytes value (inet6Addrstrlen - 1))

private theorem field_setKey (cfg : Config) (k : ConfigKey) (value : List UInt8) :
    (setKey cfg k value).field k = (cfg.field k).assign value := by
  cases k <;> rfl

private theorem field_setKey_ne (cfg : Config) (k k' : ConfigKey) (value : List UInt8) (h : k' ≠ k) :
    (setKey cfg k value).field k' = cfg.field k' := by
  cases k <;> cases k' <;> first | rfl | exact absurd rfl h

private theorem rest_setKey (cfg : Config) (k : ConfigKey) (value : List UInt8) :
    (setKey cfg k value).withFields (configInit.field) = cfg.withFields (configInit.field) := by
  cases k <;> rfl

private theorem assign_assign (value value' : List UInt8) (f : ConfigField) :
    (f.assign value').assign value = f.assign value := by
  cases f with
  | number n => rfl
  | flag b => rfl
  | text bytes => exact congrArg ConfigField.text (strncpy_strncpy _ _ _ _)

/-- The configuration as a record that is set key by key. -/
def configRecord : KeyedRecord Config ConfigKey (List UInt8) ConfigField where
  set := setKey
  get := Config.field
  write _ value f := f.assign value
  rest cfg := cfg.withFields configInit.field
  rebuild := Config.withFields
  get_set := field_setKey
  get_set_ne := field_setKey_ne
  rest_set := rest_setKey
  write_write _ := assign_assign
  rebuild_get _ := rfl

end GoodbyeDpi
