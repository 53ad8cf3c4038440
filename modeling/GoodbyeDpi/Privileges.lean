import GoodbyeDpi.CSem.Protocol
import GoodbyeDpi.Packet

/-!
# Dropping privileges (`src/service/privileges.c`)

`setup_privileges`, `drop_privileges` and `restore_privileges` in any order, on the credentials that the kernel keeps:
the real, effective and saved user and group, and the supplementary groups.  The kernel may refuse each call, and
grants one only as `setuid(2)`, `setgid(2)` and `setgroups(2)` say.  When the module says that privileges have been
dropped, all of them are those of one user, and there are no supplementary groups.
-/

namespace GoodbyeDpi

open CSem

/-- The credentials of a process. -/
structure Creds where
  ruid : Nat
  euid : Nat
  suid : Nat
  rgid : Nat
  egid : Nat
  sgid : Nat
  groups : List Nat
deriving DecidableEq, Repr

/-- Those of a user without supplementary groups. -/
def Creds.only (uid gid : Nat) : Creds := ⟨uid, uid, uid, gid, gid, gid, []⟩

inductive PrivCall where
  | getuid
  | getgid
  | geteuid
  | getpwnam (name : List UInt8)
  /-- `setgroups(0, NULL)`. -/
  | setgroups
  | setgid (gid : Nat)
  | setuid (uid : Nat)
deriving DecidableEq, Repr

/-- The answers: an id, the user and the group of a name, or 0 for a call that was granted. -/
@[reducible] def PrivCall.Answer : PrivCall → Type
  | getpwnam _ => Option (Nat × Nat)
  | getuid | getgid | geteuid => Nat
  | setgroups | setgid _ | setuid _ => Int

abbrev PrivProc := Proc PrivCall PrivCall.Answer

/-- The calls for a user database.  A process is privileged (`CAP_SETUID`, `CAP_SETGID`) exactly if its effective user
is root: no capability has been given or taken away apart from the user ids. -/
def kernel (users : List UInt8 → Option (Nat × Nat)) : Protocol PrivCall PrivCall.Answer Creds where
  ok := fun _ _ => True
  may := fun c call => match call with
    | .getuid => fun r => r = c.ruid
    | .getgid => fun r => r = c.rgid
    | .geteuid => fun r => r = c.euid
    | .getpwnam name => fun r => r = users name
    | .setgroups => fun r => r = 0 → c.euid = 0
    | .setgid gid => fun r => r = 0 → c.euid = 0 ∨ gid = c.rgid ∨ gid = c.sgid
    | .setuid uid => fun r => r = 0 → c.euid = 0 ∨ uid = c.ruid ∨ uid = c.suid
  next := fun c call => match call with
    | .setgroups => fun r => if r = 0 then { c with groups := [] } else c
    | .setgid gid => fun r =>
      if r ≠ 0 then c
      else if c.euid = 0 then { c with rgid := gid, egid := gid, sgid := gid }
      else { c with egid := gid }
    | .setuid uid => fun r =>
      if r ≠ 0 then c
      else if c.euid = 0 then { c with ruid := uid, euid := uid, suid := uid }
      else { c with euid := uid }
    | _ => fun _ => c

/-- `original_privs`. -/
structure OriginalPrivs where
  uid : Nat
  gid : Nat
  privilegeDropped : Bool
deriving DecidableEq, Repr

def OriginalPrivs.zero : OriginalPrivs := ⟨0, 0, false⟩

/-- The entry of a user. -/
def getpwnam (name : List UInt8) : PrivProc (Option (Nat × Nat)) := Proc.ask (PrivCall.getpwnam name)

/-- `setup_privileges`. -/
def setupPrivileges : PrivProc (Int × OriginalPrivs) := do
  let uid ← Proc.ask .getuid
  let gid ← Proc.ask .getgid
  pure (0, ⟨uid, gid, false⟩)

/-- `drop_privileges` from the entry of the user on. -/
def dropTo (pw : Nat × Nat) (privs : OriginalPrivs) : PrivProc (Int × OriginalPrivs) := do
  if (← Proc.ask .setgroups) ≠ 0 then pure (-1, privs)
  else if (← Proc.ask (.setgid pw.2)) ≠ 0 then pure (-1, privs)
  else if (← Proc.ask (.setuid pw.1)) ≠ 0 then pure (-1, privs)
  else pure (0, { privs with privilegeDropped := true })

/-- `drop_privileges`; `username` is `none` for a null pointer. -/
def dropPrivileges (username : Option (List UInt8)) (privs : OriginalPrivs) : PrivProc (Int × OriginalPrivs) := do
  if privs.privilegeDropped then pure (0, privs)
  else if (← Proc.ask .geteuid) ≠ 0 then pure (0, privs)
  else
    match username with
    | some (c :: name) =>
      match ← getpwnam (c :: name) with
      | none => pure (-1, privs)
      | some pw => dropTo pw privs
    | _ =>
      match ← getpwnam (ascii "nobody") with
      | none => pure (0, privs)
      | some pw => dropTo pw privs

/-- `restore_privileges`. -/
def restorePrivileges (privs : OriginalPrivs) : Int := if !privs.privilegeDropped then 0 else -1

inductive PrivOp where
  | setup
  | drop (username : Option (List UInt8))
  | restore
deriving DecidableEq, Repr

/-- One operation: its result and the new `original_privs`. -/
def privOp (privs : OriginalPrivs) : PrivOp → PrivProc (Int × OriginalPrivs)
  | .setup => setupPrivileges
  | .drop username => dropPrivileges username privs
  | .restore => pure (restorePrivileges privs, privs)

/-- A sequence of them: the results and the last `original_privs`. -/
def privSession (privs : OriginalPrivs) : List PrivOp → PrivProc (List Int × OriginalPrivs)
  | [] => pure ([], privs)
  | op :: ops => do
    let r ← privOp privs op
    let r' ← privSession r.2 ops
    pure (r.1 :: r'.1, r'.2)

/-! ### What is kept -/

variable {users : List UInt8 → Option (Nat × Nat)} {privs : OriginalPrivs} {c₀ c : Creds}

/-- What holds between two operations of a process that was started with the credentials `c₀`. -/
structure PrivInv (users : List UInt8 → Option (Nat × Nat)) (c₀ : Creds) (privs : OriginalPrivs) (c : Creds) :
    Prop where
  dropped : privs.privilegeDropped = true → ∃ name uid gid, users name = some (uid, gid) ∧ c = .only uid gid
  unprivileged : c₀.euid ≠ 0 → c = c₀
  uids : c.ruid = c₀.ruid ∧ c.euid = c₀.euid ∧ c.suid = c₀.suid ∨
    ∃ name uid gid, users name = some (uid, gid) ∧ c.ruid = uid ∧ c.euid = uid ∧ c.suid = uid

/-- A process that is root now was root from the start. -/
private theorem PrivInv.root (h : PrivInv users c₀ privs c) (hc : c.euid = 0) : c₀.euid = 0 := by
  by_contra hne
  rw [h.unprivileged hne] at hc
  exact hne hc

/-- With the flag off, the groups do not matter. -/
private theorem PrivInv.setGroups (h : PrivInv users c₀ privs c) (hroot : c₀.euid = 0)
    (hflag : privs.privilegeDropped = false) {c' : Creds} (hr : c'.ruid = c.ruid) (he : c'.euid = c.euid)
    (hs : c'.suid = c.suid) :
    PrivInv users c₀ privs c' where
  dropped := fun htrue => absurd (hflag.symm.trans htrue) (by decide)
  unprivileged := fun hne => absurd hroot hne
  uids := by
    rw [hr, he, hs]
    exact h.uids

/-- The three calls of a process that is root. -/
private theorem dropTo_meets {name : List UInt8} {pw : Nat × Nat} (hpw : users name = some pw)
    (h : PrivInv users c₀ privs c) (hc : c.euid = 0) (hflag : privs.privilegeDropped = false) :
    Meets (kernel users) (dropTo pw privs) c fun r c' =>
      PrivInv users c₀ r.2 c' ∧ (r.1 = 0 → c' = .only pw.1 pw.2) ∧
        (r.1 ≠ 0 → c'.ruid = c.ruid ∧ c'.euid = c.euid ∧ c'.suid = c.suid) := by
  have hroot := h.root hc
  have hminus : (-1 : Int) ≠ 0 := by decide
  have hsame {c' : Creds} (hr : c'.ruid = c.ruid) (he : c'.euid = c.euid) (hs : c'.suid = c.suid) :
      PrivInv users c₀ privs c' ∧ ((-1 : Int) = 0 → c' = .only pw.1 pw.2) ∧
        ((-1 : Int) ≠ 0 → c'.ruid = c.ruid ∧ c'.euid = c.euid ∧ c'.suid = c.suid) :=
    ⟨h.setGroups hroot hflag hr he hs, fun h0 => absurd h0 hminus, fun _ => ⟨hr, he, hs⟩⟩
  refine meets_ask_bind.2 ⟨trivial, fun r _ => meets_ite.2 ⟨fun hr => ?_, fun hr => ?_⟩⟩
  · have hnext : (kernel users).next c .setgroups r = c := if_neg hr
    rw [hnext]
    exact hsame rfl rfl rfl
  have hgroups : (kernel users).next c .setgroups r = { c with groups := [] } := if_pos (not_not.1 hr)
  rw [hgroups]
  refine meets_ask_bind.2 ⟨trivial, fun r _ => meets_ite.2 ⟨fun hr => ?_, fun hr => ?_⟩⟩
  · have hnext : (kernel users).next { c with groups := [] } (.setgid pw.2) r = { c with groups := [] } := if_pos hr
    rw [hnext]
    exact hsame rfl rfl rfl
  have hgid : (kernel users).next { c with groups := [] } (.setgid pw.2) r =
      { c with groups := [], rgid := pw.2, egid := pw.2, sgid := pw.2 } := (if_neg hr).trans (if_pos hc)
  rw [hgid]
  refine meets_ask_bind.2 ⟨trivial, fun r _ => meets_ite.2 ⟨fun hr => ?_, fun hr => ?_⟩⟩
  · have hnext : (kernel users).next { c with groups := [], rgid := pw.2, egid := pw.2, sgid := pw.2 }
        (.setuid pw.1) r = { c with groups := [], rgid := pw.2, egid := pw.2, sgid := pw.2 } := if_pos hr
    rw [hnext]
    exact hsame rfl rfl rfl
  · have hnext : (kernel users).next { c with groups := [], rgid := pw.2, egid := pw.2, sgid := pw.2 }
        (.setuid pw.1) r = .only pw.1 pw.2 := (if_neg hr).trans (if_pos hc)
    rw [hnext]
    exact ⟨⟨fun _ => ⟨name, pw.1, pw.2, hpw, rfl⟩, fun hne => absurd hroot hne,
      Or.inr ⟨name, pw.1, pw.2, hpw, rfl, rfl, rfl⟩⟩, fun _ => rfl, fun hne => absurd rfl hne⟩

theorem dropPrivileges_meets (username : Option (List UInt8)) (h : PrivInv users c₀ privs c) :
    Meets (kernel users) (dropPrivileges username privs) c fun r c' =>
      PrivInv users c₀ r.2 c' ∧ (r.1 ≠ 0 → c'.ruid = c.ruid ∧ c'.euid = c.euid ∧ c'.suid = c.suid) := by
  have hsame (r : Int) : PrivInv users c₀ privs c ∧ (r ≠ 0 → c.ruid = c.ruid ∧ c.euid = c.euid ∧ c.suid = c.suid) :=
    ⟨h, fun _ => ⟨rfl, rfl, rfl⟩⟩
  refine meets_ite.2 ⟨fun _ => hsame 0, fun hflag => meets_ask_bind.2 ⟨trivial, fun euid heuid => ?_⟩⟩
  have hflag' : privs.privilegeDropped = false := by simpa using hflag
  refine meets_ite.2 ⟨fun _ => hsame 0, fun hroot => ?_⟩
  have hc : c.euid = 0 := (Eq.symm heuid).trans (not_not.1 hroot)
  -- the lookup of a name, and what is done without an entry
  have hname (name : List UInt8) (r : Int) : Meets (kernel users) (getpwnam name >>= fun pw =>
      match pw with
      | none => pure (r, privs)
      | some pw => dropTo pw privs) c fun r c' =>
        PrivInv users c₀ r.2 c' ∧ (r.1 ≠ 0 → c'.ruid = c.ruid ∧ c'.euid = c.euid ∧ c'.suid = c.suid) := by
    refine meets_ask_bind.2 ⟨trivial, fun pw hpw => ?_⟩
    cases pw with
    | none => exact hsame r
    | some pw => exact (dropTo_meets (Eq.symm hpw) h hc hflag').imp fun r c' h' => ⟨h'.1, h'.2.2⟩
  cases username with
  | none => exact hname _ 0
  | some name =>
    cases name with
    | nil => exact hname _ 0
    | cons ch name => exact hname _ (-1)

theorem privOp_meets (op : PrivOp) (h : PrivInv users c₀ privs c) :
    Meets (kernel users) (privOp privs op) c fun r c' => PrivInv users c₀ r.2 c' := by
  cases op with
  | setup =>
    have hoff (uid gid : Nat) : PrivInv users c₀ ⟨uid, gid, false⟩ c :=
      ⟨fun htrue => absurd htrue Bool.false_ne_true, h.unprivileged, h.uids⟩
    exact meets_ask_bind.2 ⟨trivial, fun uid _ => meets_ask_bind.2 ⟨trivial, fun gid _ => hoff uid gid⟩⟩
  | drop username => exact (dropPrivileges_meets username h).imp fun _ _ h' => h'.1
  | restore => exact h

/-- Whatever is called in whatever order and the kernel refuses: the three user ids are those of the start or all three
those of a user of the database; when the flag says that privileges have been dropped, all ids are those of such a user
and no supplementary group is left; and a process that was not root keeps its credentials. -/
theorem privileges_session (users : List UInt8 → Option (Nat × Nat)) (c₀ : Creds) (ops : List PrivOp) :
    Meets (kernel users) (privSession .zero ops) c₀ fun r c => PrivInv users c₀ r.2 c := by
  have hrun (ops : List PrivOp) : ∀ (privs : OriginalPrivs) (c : Creds), PrivInv users c₀ privs c →
      Meets (kernel users) (privSession privs ops) c fun r c => PrivInv users c₀ r.2 c := by
    induction ops with
    | nil => exact fun _ _ h => h
    | cons op ops ih =>
      intro privs c h
      exact meets_bind.2 ((privOp_meets op h).imp fun r c' h' => meets_bind.2 (ih r.2 c' h'))
  exact hrun ops .zero c₀ ⟨fun htrue => absurd htrue (by decide), fun _ => rfl, Or.inl ⟨rfl, rfl, rfl⟩⟩

end GoodbyeDpi
