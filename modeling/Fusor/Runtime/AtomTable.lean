import Fusor.Collections.Buckets
import Fusor.Runtime.PredefinedAtoms
import Fusor.Runtime.Value

/-!
# The atom table

Entries are identified by the order of their creation and owned by handles:
those the table keeps for the predefined atoms, and those handed out.  The
interner holds its entries weakly, so a slot outlives the last handle of its
entry until it is reclaimed.  The hash function is a parameter, and
reservations are taken to succeed.
-/

namespace Fusor.Runtime

open Collections

inductive AtomKind where
  | string
  | globalSymbol
  | symbol
  | privateName
  deriving DecidableEq

/-- A description is kept as a compact string, given by its code units. -/
structure AtomEntry where
  kind : AtomKind
  description : Option (List UInt16)
  predefined : Option Nat

def AtomEntry.descriptionCodeUnits (entry : AtomEntry) : Nat :=
  entry.description.elim 0 List.length

structure AtomLimits where
  maxLiveAtoms : UInt32
  maxLiveDescriptionCodeUnits : UInt64
  maxInternerSlots : UInt32

structure AtomUsage where
  liveAtoms : Nat
  liveDescriptionCodeUnits : Nat
  internerSlots : Nat
  deriving DecidableEq

inductive AtomError where
  | invalidMaxLiveAtoms (configured maximum : Nat)
  | liveAtomLimit (current additional maximum : Nat)
  | descriptionCodeUnitLimit (current additional maximum : Nat)
  | internerSlotLimit (current additional maximum : Nat)
  deriving DecidableEq

inductive InternNamespace where
  | string
  | globalSymbol
  deriving DecidableEq

namespace InternNamespace

def atomKind : InternNamespace → AtomKind
  | string => .string
  | globalSymbol => .globalSymbol

def tag : InternNamespace → Nat
  | string => 0
  | globalSymbol => 1

end InternNamespace

structure BucketKey where
  space : InternNamespace
  contentHash : Nat
  deriving DecidableEq

inductive ReclaimScope where
  | none
  | targetBucket
  | allBuckets
  deriving DecidableEq

structure ReclaimPlan where
  scope : ReclaimScope
  totalDead : Nat
  targetDead : Nat
  deriving DecidableEq

def ReclaimPlan.nothing : ReclaimPlan :=
  ⟨.none, 0, 0⟩

structure AtomTable where
  entries : List AtomEntry
  usage : AtomUsage
  limits : AtomLimits
  buckets : Buckets BucketKey Nat
  predefined : List Nat
  handles : List Nat

def maxAtomEntries : Nat := 2 ^ 30 - 1

def predefinedAtomCount : Nat := 244

def predefinedDescriptionCodeUnits : Nat := 2119

def predefinedInternerSlots : Nat := 228

/-- Addition of 32-bit counters that stops at their maximum. -/
def saturatingAdd (left right : Nat) : Nat :=
  min (left + right) (2 ^ 32 - 1)

namespace AtomTable

/-- The number of handles that own an entry. -/
def strongCount (table : AtomTable) (atom : Nat) : Nat :=
  table.handles.count atom + table.predefined.count atom

def isLive (table : AtomTable) (atom : Nat) : Bool :=
  table.strongCount atom != 0

def deadSlots (table : AtomTable) (bucket : List Nat) : Nat :=
  bucket.foldl (fun count atom =>
    saturatingAdd count (if table.strongCount atom = 0 then 1 else 0)) 0

def pruneDeadSlots (table : AtomTable) (bucket : List Nat) : List Nat × Nat :=
  let kept := bucket.filter table.isLive
  (kept, min (bucket.length - kept.length) (2 ^ 32 - 1))

/-- Prunes every bucket, and counts what is removed. -/
def pruneBuckets (table : AtomTable) (removed : Nat)
    (buckets : Buckets BucketKey Nat) : Buckets BucketKey Nat × Nat :=
  (buckets.retain table.isLive, buckets.foldl (fun total bucket =>
    saturatingAdd total (table.pruneDeadSlots bucket.2).2) removed)

def decreaseInternerSlots (table : AtomTable) (removed : Nat) : AtomTable :=
  if removed = 0 then table
  else { table with usage := { table.usage with
    internerSlots := table.usage.internerSlots - removed } }

def collectDead (table : AtomTable) : AtomTable × Nat :=
  let (buckets, removed) := table.pruneBuckets 0 table.buckets
  ({ table with buckets }.decreaseInternerSlots removed, removed)

def checkedUsageAfterReclaim (table : AtomTable)
    (additionalAtoms additionalDescriptionCodeUnits additionalInternerSlots
      reclaimedInternerSlots : Nat) : Except AtomError AtomUsage := do
  let current := table.usage
  let liveAtoms := current.liveAtoms + additionalAtoms
  if liveAtoms ≥ 2 ^ 32 ∨ liveAtoms > table.limits.maxLiveAtoms.toNat then
    .error (.liveAtomLimit current.liveAtoms additionalAtoms
      table.limits.maxLiveAtoms.toNat)
  let liveDescriptionCodeUnits :=
    current.liveDescriptionCodeUnits + additionalDescriptionCodeUnits
  if liveDescriptionCodeUnits ≥ 2 ^ 64 ∨ liveDescriptionCodeUnits >
      table.limits.maxLiveDescriptionCodeUnits.toNat then
    .error (.descriptionCodeUnitLimit current.liveDescriptionCodeUnits
      additionalDescriptionCodeUnits
      table.limits.maxLiveDescriptionCodeUnits.toNat)
  let internerSlots :=
    current.internerSlots - reclaimedInternerSlots + additionalInternerSlots
  if internerSlots ≥ 2 ^ 32 ∨
      internerSlots > table.limits.maxInternerSlots.toNat then
    .error (.internerSlotLimit current.internerSlots additionalInternerSlots
      table.limits.maxInternerSlots.toNat)
  .ok ⟨liveAtoms, liveDescriptionCodeUnits, internerSlots⟩

def checkedUsageAfter (table : AtomTable)
    (additionalAtoms additionalDescriptionCodeUnits
      additionalInternerSlots : Nat) : Except AtomError AtomUsage :=
  table.checkedUsageAfterReclaim additionalAtoms additionalDescriptionCodeUnits
    additionalInternerSlots 0

/-- A new entry, still without a handle. -/
def createEntry (table : AtomTable) (kind : AtomKind)
    (description : Option (List UInt16)) (predefined : Option Nat)
    (nextUsage : AtomUsage) : AtomTable × Nat :=
  ({ table with
    entries := table.entries ++ [⟨kind, description, predefined⟩]
    usage := nextUsage }, table.entries.length)

/-- A unique entry, as `insert_unique` and `publish_unique` create it. -/
def insertUnique (table : AtomTable) (kind : AtomKind)
    (description : Option (List UInt16)) (predefined : Option Nat) :
    Except AtomError (AtomTable × Nat) := do
  let nextUsage ← table.checkedUsageAfter 1 (description.elim 0 List.length) 0
  .ok (table.createEntry kind description predefined nextUsage)

def planReclaim (table : AtomTable) (key : BucketKey) : ReclaimPlan :=
  let targetDead := table.deadSlots (table.buckets.bucket key)
  if table.usage.internerSlots - targetDead <
      table.limits.maxInternerSlots.toNat then
    if targetDead = 0 then .nothing
    else ⟨.targetBucket, targetDead, targetDead⟩
  else
    ⟨.allBuckets, table.buckets.foldl (fun total bucket =>
      saturatingAdd total (table.deadSlots bucket.2)) 0, targetDead⟩

/-- The buckets once the planned slots are reclaimed and the new one added. -/
def publishedBuckets (table : AtomTable) (key : BucketKey)
    (reclaim : ReclaimPlan) (atom : Nat) : Buckets BucketKey Nat :=
  let target := table.buckets.bucket key
  let others := table.buckets.erase key
  match reclaim.scope with
  | .none => others.put key (target ++ [atom])
  | .targetBucket =>
      others.put key ((table.pruneDeadSlots target).1 ++ [atom])
  | .allBuckets =>
      (others.retain table.isLive).put key
        ((table.pruneDeadSlots target).1 ++ [atom])

def publishInternedPrepared (table : AtomTable) (key : BucketKey)
    (description : List UInt16) (predefined : Option Nat)
    (reclaim : ReclaimPlan) (nextUsage : AtomUsage) : AtomTable × Nat :=
  { table with
    buckets := table.publishedBuckets key reclaim table.entries.length
      }.createEntry key.space.atomKind (some description) predefined nextUsage

section Hashing

variable (hasher : List Nat → Nat)

def contentHash (space : InternNamespace) (description : List UInt16) : Nat :=
  hasher (space.tag :: description.length :: description.map UInt16.toNat)

def bucketKey (space : InternNamespace) (description : List UInt16) :
    BucketKey :=
  ⟨space, contentHash hasher space description⟩

def holdsDescription (table : AtomTable) (key : BucketKey)
    (description : List UInt16) (atom : Nat) : Bool :=
  table.isLive atom && table.entries[atom]?.any fun entry =>
    decide (entry.kind = key.space.atomKind) &&
      decide (entry.description = some description)

def findInterned (table : AtomTable) (key : BucketKey)
    (description : List UInt16) : Option Nat :=
  (table.buckets.bucket key).find? (table.holdsDescription key description)

def internDescription (table : AtomTable) (space : InternNamespace)
    (description : List UInt16) : Except AtomError (AtomTable × Nat) :=
  let key := bucketKey hasher space description
  match table.findInterned key description with
  | some atom => .ok (table, atom)
  | none => do
      let reclaim := table.planReclaim key
      let nextUsage ← table.checkedUsageAfterReclaim 1 description.length 1
        reclaim.totalDead
      .ok (table.publishInternedPrepared key description none reclaim
        nextUsage)

def publishInterned (table : AtomTable) (space : InternNamespace)
    (description : List UInt16) (predefined : Option Nat) :
    Except AtomError (AtomTable × Nat) := do
  let nextUsage ← table.checkedUsageAfter 1 description.length 1
  .ok (table.publishInternedPrepared (bucketKey hasher space description)
    description predefined .nothing nextUsage)

def insertPredefined (table : AtomTable) (predefined : Nat)
    (spec : PredefinedAtomSpec) : Except AtomError (AtomTable × Nat) :=
  match spec.kind with
  | .string =>
      table.publishInterned hasher .string spec.description (some predefined)
  | .privateName =>
      table.insertUnique .privateName (some spec.description) (some predefined)
  | .symbol =>
      table.insertUnique .symbol (some spec.description) (some predefined)

def installPredefined (table : AtomTable) :
    List PredefinedAtomSpec → Except AtomError AtomTable
  | [] => .ok table
  | spec :: specs => do
      let (next, atom) ← table.insertPredefined hasher table.predefined.length
        spec
      { next with predefined := next.predefined ++ [atom] }.installPredefined
        specs

def validateStartupLimits (limits : AtomLimits) : Except AtomError Unit := do
  if limits.maxLiveAtoms.toNat < predefinedAtomCount then
    .error (.liveAtomLimit 0 predefinedAtomCount limits.maxLiveAtoms.toNat)
  if limits.maxLiveDescriptionCodeUnits.toNat <
      predefinedDescriptionCodeUnits then
    .error (.descriptionCodeUnitLimit 0 predefinedDescriptionCodeUnits
      limits.maxLiveDescriptionCodeUnits.toNat)
  if limits.maxInternerSlots.toNat < predefinedInternerSlots then
    .error (.internerSlotLimit 0 predefinedInternerSlots
      limits.maxInternerSlots.toNat)

def tryNew (limits : AtomLimits) : Except AtomError AtomTable := do
  if limits.maxLiveAtoms.toNat > maxAtomEntries then
    .error (.invalidMaxLiveAtoms limits.maxLiveAtoms.toNat maxAtomEntries)
  validateStartupLimits limits
  AtomTable.installPredefined hasher ⟨[], ⟨0, 0, 0⟩, limits, [], [], []⟩
    predefinedAtomSpecs

/-- What the destructor of an entry does to the counters. -/
def releaseEntry (table : AtomTable) (atom : Nat) : AtomTable :=
  match table.entries[atom]? with
  | none => table
  | some entry =>
      { table with usage := { table.usage with
        liveAtoms := table.usage.liveAtoms - 1
        liveDescriptionCodeUnits := table.usage.liveDescriptionCodeUnits -
          entry.descriptionCodeUnits } }

/-- Drops a handle, and the entry with its last one. -/
def dropHandle (table : AtomTable) (position : Nat) (atom : Nat) : AtomTable :=
  let next := { table with handles := table.handles.eraseIdx position }
  if next.strongCount atom = 0 then next.releaseEntry atom else next

def swapRemove (bucket : List Nat) (index : Nat) : List Nat :=
  match bucket.getLast? with
  | none => []
  | some last => (bucket.set index last).dropLast

/-- The slot of a rolled back entry, and the bucket with it. -/
def removeSlot (table : AtomTable) (key : BucketKey) (atom : Nat) :
    AtomTable :=
  let target := table.buckets.bucket key
  match target.findIdx? fun slot =>
      slot == atom && table.strongCount slot == 0 with
  | none => table
  | some index =>
      let kept := swapRemove target index
      let buckets :=
        if kept.isEmpty then table.buckets.erase key
        else table.buckets.put key kept
      { table with buckets }.decreaseInternerSlots 1

def rollbackInternedString (table : AtomTable) (position : Nat) (atom : Nat)
    (entry : AtomEntry) : AtomTable :=
  let dropped := table.dropHandle position atom
  if entry.predefined.isSome then dropped
  else match entry.description with
    | none => dropped
    | some description =>
        dropped.removeSlot (bucketKey hasher .string description) atom

end Hashing

end AtomTable

inductive AtomOperation where
  | internString (description : Text)
  | internGlobalSymbol (description : Text)
  | newUniqueSymbol (description : Option Text)
  | newPrivateName (description : Text)
  | predefined (index : Nat)
  | clone (position : Nat)
  | drop (position : Nat)
  | collectDead
  | rollbackInternedString (position : Nat)

/-- The result of an operation.  Calls that no caller can make, on a handle
that is not there or is no string atom, are refused. -/
inductive AtomOutput where
  | atom (atom : Nat)
  | failed (error : AtomError)
  | removed (slots : Nat)
  | unit
  | refused
  deriving DecidableEq

namespace AtomTable

/-- Hands out an owning handle. -/
def handOut (table : AtomTable) :
    Except AtomError (AtomTable × Nat) → AtomTable × AtomOutput
  | .error error => (table, .failed error)
  | .ok (next, atom) =>
      ({ next with handles := atom :: next.handles }, .atom atom)

def step (hasher : List Nat → Nat) (table : AtomTable) :
    AtomOperation → AtomTable × AtomOutput
  | .internString description =>
      table.handOut (table.internDescription hasher .string
        description.codeUnits)
  | .internGlobalSymbol description =>
      table.handOut (table.internDescription hasher .globalSymbol
        description.codeUnits)
  | .newUniqueSymbol description =>
      table.handOut (table.insertUnique .symbol
        (description.map Text.codeUnits) none)
  | .newPrivateName description =>
      table.handOut (table.insertUnique .privateName
        (some description.codeUnits) none)
  | .predefined index =>
      match table.predefined[index]? with
      | none => (table, .refused)
      | some atom =>
          ({ table with handles := atom :: table.handles }, .atom atom)
  | .clone position =>
      match table.handles[position]? with
      | none => (table, .refused)
      | some atom =>
          ({ table with handles := atom :: table.handles }, .atom atom)
  | .drop position =>
      match table.handles[position]? with
      | none => (table, .refused)
      | some atom => (table.dropHandle position atom, .unit)
  | .collectDead =>
      let (next, removed) := table.collectDead
      (next, .removed removed)
  | .rollbackInternedString position =>
      match table.handles[position]? with
      | none => (table, .refused)
      | some atom =>
          match table.entries[atom]? with
          | none => (table, .refused)
          | some entry =>
              if entry.kind = .string then
                (table.rollbackInternedString hasher position atom entry, .unit)
              else (table, .refused)

def run (hasher : List Nat → Nat) (table : AtomTable) :
    List AtomOperation → AtomTable × List AtomOutput
  | [] => (table, [])
  | operation :: operations =>
      let (next, output) := table.step hasher operation
      let (final, outputs) := next.run hasher operations
      (final, output :: outputs)

end AtomTable

end Fusor.Runtime
