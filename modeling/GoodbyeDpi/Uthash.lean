import GoodbyeDpi.CSem.DoublyLinked
import Mathlib.Algebra.Group.Nat.Defs
import Mathlib.Data.Fintype.Card

/-!
# The hash table (`src/utils/uthash.h`)

The macros that the DNS tracker uses, on the pointers of the elements.  An element is in two doubly linked lists: that
of all elements in the order of insertion (`prev` and `next`) and the chain of its bucket (`hh_prev` and `hh_next`).
The memory is one function for each field.  `HASH_BLOOM`, `HASH_NONFATAL_OOM` and `HASH_DEBUG` are not defined, so
there is no filter and a failing allocation ends the program.  The counters of type `unsigned` are numbers that wrap at
2^32.
-/

namespace GoodbyeDpi

open CSem

/-- The elements that memory has room for: fewer than 2^32. -/
def maxElements : Nat := 2 ^ 32 - 1

/-- The address of an element. -/
abbrev ElemAddr := Fin maxElements

/-- `++` and `--` of an `unsigned`. -/
def incr (n : Nat) : Nat := (n + 1) % 2 ^ 32

def decr (n : Nat) : Nat := (n + (2 ^ 32 - 1)) % 2 ^ 32

/-- How a run can fail: `exit(-1)` of `uthash_fatal` when there is no block of a size, an access through a null pointer
or to memory that is not allocated, and a list that goes on when as many elements as the table has were visited. -/
inductive HashFault where
  | exited (size : Nat)
  | wild
  | endless
deriving DecidableEq, Repr

/-- The elements, by address: what the program stores in them (nothing where none is allocated), and the fields of
their `UT_hash_handle`s.  `key` is the `keylen` bytes that the handle's `key` points at. -/
structure HashMemory (V : Type) where
  elem : ElemAddr → Option V
  key : ElemAddr → List UInt8
  hashv : ElemAddr → UInt32
  app : ElemAddr → Links ElemAddr
  bkt : ElemAddr → Links ElemAddr

/-- `UT_hash_bucket`. -/
structure HashBucket where
  hhHead : Option ElemAddr
  count : Nat
  expandMult : Nat
deriving DecidableEq, Repr

/-- `UT_hash_table`. -/
structure HashTable where
  buckets : List HashBucket
  numBuckets : Nat
  log2NumBuckets : Nat
  numItems : Nat
  tail : ElemAddr
  idealChainMaxlen : Nat
  nonidealItems : Nat
  ineffExpands : Nat
  noexpand : Bool
deriving DecidableEq, Repr

/-- The head pointer of a table, and the block that the `tbl` field of every element's handle points at. -/
structure Uthash (V : Type) where
  mem : HashMemory V
  head : Option ElemAddr
  tbl : Option HashTable

/-- What `malloc` does in one call: the address of a new element, if there is one, and whether a block of a given size
is found for the table.  No block has 64 GiB. -/
structure Malloc (V : Type) where
  element : HashMemory V → Option ElemAddr
  fresh : ∀ {m a}, element m = some a → m.elem a = none
  block : Nat → Bool
  bounded : ∀ {n}, block n = true → n < 2 ^ 36

/-- The run ended because there was no block of a size. -/
def Malloc.Refuses {V : Type} (mal : Malloc V) : HashFault → Prop
  | .exited size => mal.block size = false
  | .wild | .endless => False

/-- A loop or an access with its outcome. -/
abbrev HashRun := Except HashFault

/-- `HASH_INITIAL_NUM_BUCKETS`. -/
def hashInitialNumBuckets : Nat := 32

/-- `HASH_INITIAL_NUM_BUCKETS_LOG2`. -/
def hashInitialNumBucketsLog2 : Nat := 5

/-- `HASH_BKT_CAPACITY_THRESH`. -/
def hashBktCapacityThresh : Nat := 10

/-- `sizeof(UT_hash_bucket)`. -/
def hashBucketSize : Nat := 16

/-- `sizeof(UT_hash_table)`. -/
def hashTableSize : Nat := 64

namespace HashMemory

variable {V : Type}

/-- Nothing is allocated. -/
def empty : HashMemory V where
  elem _ := none
  key _ := []
  hashv _ := 0
  app _ := ⟨none, none⟩
  bkt _ := ⟨none, none⟩

/-- The access to an element is allowed. -/
def check (m : HashMemory V) (a : ElemAddr) : HashRun Unit := if (m.elem a).isSome then .ok () else .error .wild

/-- `malloc`, and the element is filled in. -/
def alloc (m : HashMemory V) (a : ElemAddr) (v : V) : HashMemory V :=
  { m with elem := Function.update m.elem a (some v) }

/-- `free`. -/
def free (m : HashMemory V) (a : ElemAddr) : HashRun (HashMemory V) := do
  m.check a
  .ok { m with elem := Function.update m.elem a none }

/-- What the program reads of an element. -/
def load (m : HashMemory V) (a : ElemAddr) : HashRun V := (m.elem a).elim (.error .wild) .ok

/-- What the program writes to an element. -/
def store (m : HashMemory V) (a : ElemAddr) (v : V) : HashRun (HashMemory V) := do
  m.check a
  .ok { m with elem := Function.update m.elem a (some v) }

/-- The fields `prev` and `next`. -/
def links (m : HashMemory V) (a : ElemAddr) : HashRun (Links ElemAddr) := do
  m.check a
  .ok (m.app a)

/-- The fields `hh_prev` and `hh_next`. -/
def hhLinks (m : HashMemory V) (a : ElemAddr) : HashRun (Links ElemAddr) := do
  m.check a
  .ok (m.bkt a)

/-- `a->hh.prev = p`. -/
def setPrev (m : HashMemory V) (a : ElemAddr) (p : Option ElemAddr) : HashRun (HashMemory V) := do
  m.check a
  .ok { m with app := CSem.setPrev m.app a p }

/-- `a->hh.next = n`. -/
def setNext (m : HashMemory V) (a : ElemAddr) (n : Option ElemAddr) : HashRun (HashMemory V) := do
  m.check a
  .ok { m with app := CSem.setNext m.app a n }

/-- `a->hh.hh_prev = p`. -/
def setHhPrev (m : HashMemory V) (a : ElemAddr) (p : Option ElemAddr) : HashRun (HashMemory V) := do
  m.check a
  .ok { m with bkt := CSem.setPrev m.bkt a p }

/-- `a->hh.hh_next = n`. -/
def setHhNext (m : HashMemory V) (a : ElemAddr) (n : Option ElemAddr) : HashRun (HashMemory V) := do
  m.check a
  .ok { m with bkt := CSem.setNext m.bkt a n }

/-- `hashv`, `key` and `keylen` of a new element. -/
def setKey (m : HashMemory V) (a : ElemAddr) (key : List UInt8) (hashv : UInt32) : HashRun (HashMemory V) := do
  m.check a
  .ok { m with key := Function.update m.key a key, hashv := Function.update m.hashv a hashv }

end HashMemory

variable {V : Type}

/-- `if (o) o->f = v` for a pointer `o`. -/
def setWhere (o : Option ElemAddr) (f : HashMemory V → ElemAddr → HashRun (HashMemory V)) (m : HashMemory V) :
    HashRun (HashMemory V) :=
  match o with
  | none => .ok m
  | some a => f m a

/-- `(head)->hh.tbl` of a table that is not empty. -/
def Uthash.table (s : Uthash V) : HashRun HashTable := s.tbl.elim (.error .wild) .ok

/-- `buckets[i]`. -/
def bucketAt (buckets : List HashBucket) (i : Nat) : HashRun HashBucket := buckets[i]?.elim (.error .wild) .ok

/-- `HASH_TO_BKT`. -/
def hashToBkt (hashv : UInt32) (numBkts : Nat) : Nat := hashv.toNat &&& (numBkts - 1)

/-! ### The hash function -/

/-- `HASH_JEN_MIX`. -/
def hashJenMix (a b c : UInt32) : UInt32 × UInt32 × UInt32 :=
  let a := (a - b - c) ^^^ (c >>> 13)
  let b := (b - c - a) ^^^ (a <<< 8)
  let c := (c - a - b) ^^^ (b >>> 13)
  let a := (a - b - c) ^^^ (c >>> 12)
  let b := (b - c - a) ^^^ (a <<< 16)
  let c := (c - a - b) ^^^ (b >>> 5)
  let a := (a - b - c) ^^^ (c >>> 3)
  let b := (b - c - a) ^^^ (a <<< 10)
  let c := (c - a - b) ^^^ (b >>> 15)
  (a, b, c)

/-- Four bytes as a number, the low one first. -/
def hashJenWord (a b c d : UInt8) : UInt32 :=
  a.toUInt32 + (b.toUInt32 <<< 8) + (c.toUInt32 <<< 16) + (d.toUInt32 <<< 24)

/-- The loop of `HASH_JEN` over twelve bytes at a time: the bytes that are left, `_hj_i`, `_hj_j` and `hashv`. -/
def hashJenLoop : List UInt8 → UInt32 → UInt32 → UInt32 → List UInt8 × UInt32 × UInt32 × UInt32
  | k0 :: k1 :: k2 :: k3 :: k4 :: k5 :: k6 :: k7 :: k8 :: k9 :: k10 :: k11 :: rest, i, j, hashv =>
    let (i, j, hashv) := hashJenMix (i + hashJenWord k0 k1 k2 k3) (j + hashJenWord k4 k5 k6 k7)
      (hashv + hashJenWord k8 k9 k10 k11)
    hashJenLoop rest i j hashv
  | rest, i, j, hashv => (rest, i, j, hashv)

/-- `HASH_JEN`; the cases of the `switch` that are passed over add nothing, as a byte past the key is 0 here. -/
def hashJen (key : List UInt8) : UInt32 :=
  let (rest, i, j, hashv) := hashJenLoop key 0x9e3779b9 0x9e3779b9 0xfeedbeef
  let byte n := rest.getD n 0
  let hashv := hashv + UInt32.ofNat key.length + hashJenWord 0 (byte 8) (byte 9) (byte 10)
  let j := j + hashJenWord (byte 4) (byte 5) (byte 6) (byte 7)
  let i := i + hashJenWord (byte 0) (byte 1) (byte 2) (byte 3)
  (hashJenMix i j hashv).2.2

/-! ### Buckets -/

/-- The writes with which an element becomes the first one of a chain. -/
def hashLinkFirst (m : HashMemory V) (head : Option ElemAddr) (thh : ElemAddr) : HashRun (HashMemory V) := do
  let m ← m.setHhNext thh head
  let m ← m.setHhPrev thh none
  setWhere head (fun m h => m.setHhPrev h (some thh)) m

/-- The loop over the buckets of `HASH_EXPAND_BUCKETS`: the memory, the new buckets, and `nonideal_items`. -/
structure Expansion (V : Type) where
  mem : HashMemory V
  newBuckets : List HashBucket
  nonidealItems : Nat

/-- One element goes to its new bucket; `numNew` is the new number of buckets. -/
def expandItem (numNew idealChainMaxlen : Nat) (thh : ElemAddr) (x : Expansion V) : HashRun (Expansion V) := do
  x.mem.check thh
  let bkt := hashToBkt (x.mem.hashv thh) numNew
  let newbkt ← bucketAt x.newBuckets bkt
  let count := incr newbkt.count
  let nonidealItems := if count > idealChainMaxlen then incr x.nonidealItems else x.nonidealItems
  let expandMult :=
    if count > idealChainMaxlen ∧ count > newbkt.expandMult * idealChainMaxlen % 2 ^ 32 then incr newbkt.expandMult
    else newbkt.expandMult
  let mem ← hashLinkFirst x.mem newbkt.hhHead thh
  .ok { mem, newBuckets := x.newBuckets.set bkt { hhHead := some thh, count, expandMult }, nonidealItems }

/-- The elements of one old chain, from `thh` on. -/
def expandChain (numNew idealChainMaxlen : Nat) : Nat → Option ElemAddr → Expansion V → HashRun (Expansion V)
  | _, none, x => .ok x
  | 0, some _, _ => .error .endless
  | fuel + 1, some thh, x => do
    let l ← x.mem.hhLinks thh
    let x ← expandItem numNew idealChainMaxlen thh x
    expandChain numNew idealChainMaxlen fuel l.next x

/-- The buckets `i`, `i + 1`, ..., as many as there are to go. -/
def expandBuckets (buckets : List HashBucket) (numNew idealChainMaxlen fuel : Nat) :
    Nat → Nat → Expansion V → HashRun (Expansion V)
  | 0, _, x => .ok x
  | left + 1, i, x => do
    let b ← bucketAt buckets i
    let x ← expandChain numNew idealChainMaxlen fuel b.hhHead x
    expandBuckets buckets numNew idealChainMaxlen fuel left (i + 1) x

/-- `HASH_EXPAND_BUCKETS`. -/
def hashExpandBuckets (mal : Malloc V) (m : HashMemory V) (t : HashTable) : HashRun (HashMemory V × HashTable) := do
  let size := hashBucketSize * t.numBuckets * 2
  if !mal.block size then .error (.exited size)
  else
    let numNew := t.numBuckets * 2 % 2 ^ 32
    let idealChainMaxlen := t.numItems >>> (t.log2NumBuckets + 1) +
      if t.numItems &&& (numNew - 1) ≠ 0 then 1 else 0
    let x ← expandBuckets t.buckets numNew idealChainMaxlen t.numItems t.numBuckets 0
      { mem := m, newBuckets := List.replicate (t.numBuckets * 2) ⟨none, 0, 0⟩, nonidealItems := 0 }
    let ineffExpands := if x.nonidealItems > t.numItems >>> 1 then incr t.ineffExpands else 0
    .ok (x.mem,
      { t with
        buckets := x.newBuckets
        numBuckets := numNew
        log2NumBuckets := t.log2NumBuckets + 1
        idealChainMaxlen
        nonidealItems := x.nonidealItems
        ineffExpands
        noexpand := t.noexpand || decide (ineffExpands > 1) })

/-- `HASH_ADD_TO_BKT`. -/
def hashAddToBkt (mal : Malloc V) (m : HashMemory V) (t : HashTable) (bkt : Nat) (add : ElemAddr) :
    HashRun (HashMemory V × HashTable) := do
  let b ← bucketAt t.buckets bkt
  let m ← hashLinkFirst m b.hhHead add
  let b := { b with hhHead := some add, count := incr b.count }
  let t := { t with buckets := t.buckets.set bkt b }
  if b.count ≥ incr b.expandMult * hashBktCapacityThresh % 2 ^ 32 ∧ !t.noexpand then hashExpandBuckets mal m t
  else .ok (m, t)

/-- `HASH_DEL_IN_BKT`. -/
def hashDelInBkt (m : HashMemory V) (t : HashTable) (bkt : Nat) (del : ElemAddr) :
    HashRun (HashMemory V × HashTable) := do
  let b ← bucketAt t.buckets bkt
  let l ← m.hhLinks del
  let b := { b with hhHead := if b.hhHead = some del then l.next else b.hhHead, count := decr b.count }
  let m ← setWhere l.prev (fun m p => m.setHhNext p l.next) m
  let l ← m.hhLinks del
  let m ← setWhere l.next (fun m n => m.setHhPrev n l.prev) m
  .ok (m, { t with buckets := t.buckets.set bkt b })

/-- `HASH_FIND_IN_BKT`, from the element `out` on. -/
def hashFindInBkt (m : HashMemory V) (keyptr : List UInt8) (hashval : UInt32) :
    Nat → Option ElemAddr → HashRun (Option ElemAddr)
  | _, none => .ok none
  | 0, some _ => .error .endless
  | fuel + 1, some out => do
    let l ← m.hhLinks out
    if m.hashv out = hashval ∧ m.key out = keyptr then .ok (some out)
    else hashFindInBkt m keyptr hashval fuel l.next

/-! ### Tables -/

/-- `HASH_MAKE_TABLE`. -/
def hashMakeTable (mal : Malloc V) (add : ElemAddr) : HashRun HashTable :=
  let size := hashInitialNumBuckets * hashBucketSize
  if !mal.block hashTableSize then .error (.exited hashTableSize)
  else if !mal.block size then .error (.exited size)
  else
    .ok
      { buckets := List.replicate hashInitialNumBuckets ⟨none, 0, 0⟩
        numBuckets := hashInitialNumBuckets
        log2NumBuckets := hashInitialNumBucketsLog2
        numItems := 0
        tail := add
        idealChainMaxlen := 0
        nonidealItems := 0
        ineffExpands := 0
        noexpand := false }

/-- `HASH_APPEND_LIST`. -/
def hashAppendList (m : HashMemory V) (t : HashTable) (add : ElemAddr) : HashRun (HashMemory V × HashTable) := do
  let m ← m.setNext add none
  let m ← m.setPrev add (some t.tail)
  let m ← m.setNext t.tail (some add)
  .ok (m, { t with tail := add })

/-- `HASH_ADD_TO_TABLE`. -/
def hashAddToTable (mal : Malloc V) (m : HashMemory V) (head : Option ElemAddr) (t : HashTable) (hashval : UInt32)
    (add : ElemAddr) : HashRun (Uthash V) := do
  let t := { t with numItems := incr t.numItems }
  let (m, t) ← hashAddToBkt mal m t (hashToBkt hashval t.numBuckets) add
  .ok { mem := m, head, tbl := some t }

/-- `HASH_ADD_KEYPTR_BYHASHVALUE`, with the key's value of the hash function. -/
def hashAddKeyptr (mal : Malloc V) (s : Uthash V) (keyptr : List UInt8) (hashval : UInt32) (add : ElemAddr) :
    HashRun (Uthash V) := do
  let m ← s.mem.setKey add keyptr hashval
  match s.head with
  | none =>
    let m ← m.setNext add none
    let m ← m.setPrev add none
    let t ← hashMakeTable mal add
    hashAddToTable mal m (some add) t hashval add
  | some head =>
    let t ← s.table
    let (m, t) ← hashAppendList m t add
    hashAddToTable mal m (some head) t hashval add

/-- `HASH_FIND_BYHASHVALUE`. -/
def hashFind (s : Uthash V) (keyptr : List UInt8) (hashval : UInt32) : HashRun (Option ElemAddr) :=
  match s.head with
  | none => .ok none
  | some _ => do
    let t ← s.table
    let b ← bucketAt t.buckets (hashToBkt hashval t.numBuckets)
    hashFindInBkt s.mem keyptr hashval t.numItems b.hhHead

/-- `HASH_ADD_STR`, with the string in the element. -/
def hashAddStr (mal : Malloc V) (s : Uthash V) (str : List UInt8) (add : ElemAddr) : HashRun (Uthash V) :=
  hashAddKeyptr mal s str (hashJen str) add

/-- `HASH_FIND_STR`. -/
def hashFindStr (s : Uthash V) (findstr : List UInt8) : HashRun (Option ElemAddr) :=
  hashFind s findstr (hashJen findstr)

/-- The `tail` of the table when `del`, with `prev` before it, goes. -/
def tailWithout (t : HashTable) (del : ElemAddr) (prev : Option ElemAddr) : HashRun ElemAddr :=
  if del = t.tail then prev.elim (.error .wild) .ok else .ok t.tail

/-- `HASH_DELETE_HH`. -/
def hashDelete (s : Uthash V) (del : ElemAddr) : HashRun (Uthash V) := do
  let l ← s.mem.links del
  let t ← s.table
  if l.prev = none ∧ l.next = none then .ok { s with head := none, tbl := none }
  else
    let tail ← tailWithout t del l.prev
    let m ← setWhere l.prev (fun m p => m.setNext p l.next) s.mem
    let l ← m.links del
    let head := l.prev.elim l.next fun _ => s.head
    let m ← setWhere l.next (fun m n => m.setPrev n l.prev) m
    let (m, t) ← hashDelInBkt m { t with tail } (hashToBkt (m.hashv del) t.numBuckets) del
    .ok { mem := m, head, tbl := some { t with numItems := decr t.numItems } }

/-- `HASH_COUNT`. -/
def hashCount (s : Uthash V) : HashRun Nat :=
  match s.head with
  | none => .ok 0
  | some _ => do
    let t ← s.table
    .ok t.numItems

/-- The field `next` of the element that a pointer points at, and null for the null pointer. -/
def nextOf (m : HashMemory V) (o : Option ElemAddr) : HashRun (Option ElemAddr) :=
  match o with
  | none => .ok none
  | some a => do
    let l ← m.links a
    .ok l.next

/-- The loop of `HASH_ITER`: `tmp` is the element behind `el`, read before the body runs on `el`. -/
def hashIterFrom {σ : Type} (mem : σ → HashMemory V) (body : σ → ElemAddr → HashRun σ) :
    Nat → Option ElemAddr → Option ElemAddr → σ → HashRun σ
  | _, none, _, x => .ok x
  | 0, some _, _, _ => .error .endless
  | fuel + 1, some el, tmp, x => do
    let x ← body x el
    let behind ← nextOf (mem x) tmp
    hashIterFrom mem body fuel tmp behind x

/-- `HASH_ITER` over the table that a state has at the start. -/
def hashIter {σ : Type} (mem : σ → HashMemory V) (body : σ → ElemAddr → HashRun σ) (s : Uthash V) (x : σ) :
    HashRun σ := do
  let fuel ← hashCount s
  let tmp ← nextOf s.mem s.head
  hashIterFrom mem body fuel s.head tmp x

end GoodbyeDpi
