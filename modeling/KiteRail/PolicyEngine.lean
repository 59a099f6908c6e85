import KiteRail.HttpHeader
import KiteRail.PolicyDecision
import KiteRail.ProgInterleave
import KiteRail.Sha256

/-! The policy engine: fingerprinting and loading a directory that may be edited at any
time, and publishing what was compiled. Every look at the directory is a step of its own;
counts of the edits made so far are kept with what was read, for the statements only. -/
namespace KiteRail.Policy
open Bytes Prog Rego

/-- The files below the policy directory, by their paths relative to it: those that a walk comes
to, and those behind links to directories, which it does not follow. -/
structure Tree where
  files : List (Bytes × Bytes)
  nodup : (files.map Prod.fst).Nodup
  linked : List (Bytes × Bytes)

def Tree.readable (dir : Tree) : List (Bytes × Bytes) := dir.files ++ dir.linked

/-- `filepath.Ext`. -/
def ext (path : Bytes) : Bytes :=
  let name := path.reverse.takeWhile fun b => b != 47
  if name.contains 46 then 46 :: (name.takeWhile fun b => b != 46).reverse else []

/-- Whether a path counts for the version. -/
def policyFile (path : Bytes) : Bool :=
  [lit ".rego", lit ".json", lit ".yaml", lit ".yml"].contains (Header.toLower (ext path))

/-- One file in the text that is hashed. -/
def chunk (rel content : Bytes) : Bytes :=
  decimalNat rel.length ++ 58 :: rel ++ 59 :: decimalNat content.length ++ 58 :: content

def fingerprint (files : List (Bytes × Bytes)) : Bytes :=
  lit "sha256:" ++
    (hexEncode (Sha256.sum256 (files.flatMap fun f => chunk f.1 f.2))).take 16

def pick (names : List Bytes) (files : List (Bytes × Bytes)) : List (Bytes × Bytes) :=
  names.filterMap fun name => (List.lookup name files).map fun content => (name, content)

/-- `bundleVersion` of a directory with these files, `none` for no directory. -/
def versionOf : Option (List (Bytes × Bytes)) → Bytes
  | none => lit "none"
  | some files => fingerprint (pick (sort ((files.map Prod.fst).filter policyFile)) files)

/-- A rule of a compiled module: its reference and the number of its arguments. -/
structure Rule where
  ref : Bytes
  args : ℕ

structure PolicyModule where
  package : Bytes
  rules : List Rule

/-- What compilation makes of files. -/
structure Compiled where
  modules : List PolicyModule
  eval : Value → Except GoError (Option Value)

/-- The policy library: the files that its loader reads below a directory, and the compiler, on
files or on nothing. -/
structure OpaLib where
  lists : Tree → List Bytes
  prepare : Option (List (Bytes × Bytes)) → Except GoError Compiled

/-- The loader reads exactly the files of the directory that count for the version. -/
def OpaLib.Covers (opa : OpaLib) : Option Tree → Prop
  | none => True
  | some dir => (opa.lists dir).Perm ((dir.files.map Prod.fst).filter policyFile)

instance (opa : OpaLib) : (dir : Option Tree) → Decidable (opa.Covers dir)
  | none => isTrue trivial
  | some dir => inferInstanceAs
      (Decidable ((opa.lists dir).Perm ((dir.files.map Prod.fst).filter policyFile)))

def hasDecisionPolicy (modules : List PolicyModule) : Bool :=
  modules.any fun m => m.rules.any fun rule =>
    rule.args == 0 && (rule.ref == lit "data.elodea.authz.decision" ||
      (lit "data.elodea.authz.decision.").isPrefixOf rule.ref)

def usesLegacyPackage (modules : List PolicyModule) : Bool :=
  modules.any fun m => (lit "data.kiterail.authz").isPrefixOf m.package

/-- A prepared query with the files it was compiled from, the directory when they had been
loaded, and how many edits it had seen when the reload began to fingerprint, began to load and had
loaded. -/
structure Query (opa : OpaLib) where
  source : Option (List (Bytes × Bytes))
  compiled : Compiled
  prepared : opa.prepare source = .ok compiled
  origin : Option Tree
  fingerprinted : ℕ
  loaded : ℕ
  complete : ℕ

/-- What the lock protects. -/
structure Active (opa : OpaLib) where
  query : Query opa
  ready : Bool
  version : Bytes

inductive Site
  | fingerprint
  | load

/-- The steps of the engine; `stat` is answered with whether the directory is missing. -/
inductive EngineOp (opa : OpaLib)
  | stat (site : Site)
  | walk
  | list
  | readFile (path : Bytes)
  | prepare (source : Option (List (Bytes × Bytes)))
  | publish (active : Active opa)
  | version
  | current
  | eval (query : Query opa) (input : Value)

def EngineRes {opa : OpaLib} : EngineOp opa → Type
  | .stat _ => Bool
  | .walk => Except GoError (List Bytes)
  | .list => Except GoError (List Bytes)
  | .readFile _ => Except GoError Bytes
  | .prepare _ => Except GoError (Query opa)
  | .publish _ => Unit
  | .version => Bytes
  | .current => Active opa
  | .eval _ _ => Except GoError (Option Value)

abbrev EngineProg (opa : OpaLib) := Prog (EngineOp opa) EngineRes

section Programs
variable {opa : OpaLib}

def stat (site : Site) : EngineProg opa Bool := perform (EngineOp.stat site)

def walk : EngineProg opa (Except GoError (List Bytes)) := perform EngineOp.walk

/-- The loader's own way through the directory. -/
def list : EngineProg opa (Except GoError (List Bytes)) := perform EngineOp.list

def readFile (path : Bytes) : EngineProg opa (Except GoError Bytes) :=
  perform (EngineOp.readFile path)

def prepare (source : Option (List (Bytes × Bytes))) :
    EngineProg opa (Except GoError (Query opa)) := perform (EngineOp.prepare source)

def publish (active : Active opa) : EngineProg opa Unit := perform (EngineOp.publish active)

def activeVersion : EngineProg opa Bytes := perform EngineOp.version

def current : EngineProg opa (Active opa) := perform EngineOp.current

def evalQuery (query : Query opa) (input : Value) :
    EngineProg opa (Except GoError (Option Value)) := perform (EngineOp.eval query input)

/-- Read files one by one. -/
def readFiles : List Bytes → EngineProg opa (Except GoError (List (Bytes × Bytes)))
  | [] => return .ok []
  | path :: rest => do
    match ← readFile path with
    | .error e => return .error e
    | .ok content =>
      match ← readFiles rest with
      | .error e => return .error e
      | .ok files => return .ok ((path, content) :: files)

def bundleVersion : EngineProg opa (Except GoError Bytes) := do
  if ← stat .fingerprint then
    return .ok (lit "none")
  else
    match ← walk with
    | .error e => return .error e
    | .ok paths =>
      match ← readFiles (sort (paths.filter policyFile)) with
      | .error e => return .error e
      | .ok files => return .ok (fingerprint files)

/-- `rego.Load` and `PrepareForEval`: the files that the loader comes to are read, and what was
read is compiled. -/
def load : EngineProg opa (Except GoError (Query opa)) := do
  match ← list with
  | .error e => return .error e
  | .ok paths =>
    match ← readFiles paths with
    | .error e => return .error e
    | .ok files => prepare (some files)

/-- From the compiled query on. -/
def publishQuery (version : Bytes) :
    Except GoError (Query opa) → EngineProg opa (Except GoError Unit)
  | .error e => return .error (.wrap (msg "failed to prepare rego query: ") e)
  | .ok query => do
    let ready := hasDecisionPolicy query.compiled.modules
    if !ready && usesLegacyPackage query.compiled.modules then
      return .error (.text (msg
        "policy bundle declares `package kiterail.authz`; rename it to `package elodea.authz`"))
    else
      publish ⟨query, ready, version⟩
      return .ok ()

def reload : EngineProg opa (Except GoError Unit) := do
  match ← bundleVersion with
  | .error e => return .error (.wrap (msg "failed to fingerprint policy bundle: ") e)
  | .ok version =>
    if ← stat .load then
      publishQuery version (← prepare none)
    else
      publishQuery version (← load)

/-- What a call returns: a reload its error, an evaluation its decision and the query that
made it. -/
inductive Outcome (opa : OpaLib)
  | reloaded (r : Except GoError Unit)
  | unchanged
  | decided (query : Query opa) (decision : ProxyDecision)

/-- `Reload`, from a signal or the admin endpoint. -/
def reloadCall : EngineProg opa (Outcome opa) := do
  return .reloaded (← reload)

/-- One tick of `WatchForChanges`. -/
def watchTick : EngineProg opa (Outcome opa) := do
  match ← bundleVersion with
  | .error _ => return .unchanged
  | .ok version =>
    if version = (← activeVersion) then return .unchanged
    else return .reloaded (← reload)

/-- `Evaluate`. -/
def evaluateCall (input : EvalInput) : EngineProg opa (Outcome opa) := do
  let active ← current
  let outcome ← evalQuery active.query (inputDocument input)
  return .decided active.query (evaluateWith active.version outcome)

inductive Calls : EngineProg opa (Outcome opa) → Prop
  | reload : Calls reloadCall
  | watch : Calls watchTick
  | evaluate (input : EvalInput) : Calls (evaluateCall input)

end Programs

/-- A publication: by which thread, of what, and how many there had been when the thread
began to load. -/
structure Publication (opa : OpaLib) where
  thread : ℕ
  active : Active opa
  seen : ℕ

/-- The directory with the number of its edits, the publications from the newest on, and
for every thread the counts when it last began to fingerprint and to load. -/
structure Host (opa : OpaLib) where
  dir : Option Tree
  edits : ℕ
  log : List (Publication opa)
  started : ℕ → ℕ
  loading : ℕ → ℕ
  seen : ℕ → ℕ

inductive Attempt
  | works
  | fails (e : GoError)

namespace Host
variable {opa : OpaLib}

def start (dir : Option Tree) : Host opa := ⟨dir, 0, [], fun _ => 0, fun _ => 0, fun _ => 0⟩

def active (s : Host opa) : Option (Active opa) := s.log.head?.map Publication.active

def contents (s : Host opa) : Option (List (Bytes × Bytes)) := s.dir.map Tree.files

/-- Only a successful `os.Stat` can tell that the directory is missing. -/
def missing (s : Host opa) : Attempt → Bool
  | .works => s.dir.isNone
  | .fails _ => false

def compiled (s : Host opa) (t : ℕ) (source : Option (List (Bytes × Bytes))) :
    Except GoError (Query opa) :=
  match h : opa.prepare source with
  | .error e => .error e
  | .ok compiled => .ok ⟨source, compiled, h, s.dir, s.started t, s.loading t, s.edits⟩

def answer (attempt : Attempt) (t : ℕ) (op : EngineOp opa) (s : Host opa) :
    Option (EngineRes op × Host opa) :=
  match op, attempt with
  | .stat .fingerprint, a =>
    some (s.missing a, { s with started := Function.update s.started t s.edits })
  | .stat .load, a =>
    some (s.missing a, { s with
      loading := Function.update s.loading t s.edits
      seen := Function.update s.seen t s.log.length })
  | .walk, .works => s.contents.map fun files => (.ok (files.map Prod.fst), s)
  | .walk, .fails e => some (.error e, s)
  | .list, .works => s.dir.map fun dir => (.ok (opa.lists dir), s)
  | .list, .fails e => some (.error e, s)
  | .readFile path, .works =>
    (s.dir.bind fun dir => List.lookup path dir.readable).map fun content => (.ok content, s)
  | .readFile _, .fails e => some (.error e, s)
  | .prepare source, .works => some (s.compiled t source, s)
  | .prepare _, .fails e => some (.error e, s)
  | .publish active, _ => some ((), { s with log := ⟨t, active, s.seen t⟩ :: s.log })
  | .version, _ => s.active.map fun a => (a.version, s)
  | .current, _ => s.active.map fun a => (a, s)
  | .eval query input, .works => some (query.compiled.eval input, s)
  | .eval _ _, .fails e => some (.error e, s)

/-- The engine over a directory that anyone may replace at any time. -/
def machine (opa : OpaLib) : Machine (EngineOp opa) EngineRes (Host opa) Attempt (Option Tree) where
  answer := answer
  fault dir s := some { s with dir := dir, edits := s.edits + 1 }
  lose _ s := s

end Host

end KiteRail.Policy
