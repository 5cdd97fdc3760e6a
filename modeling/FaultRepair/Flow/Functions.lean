/-
# Functions of a program

The bodies of all functions, walked, and the functions that can run at all: those of
packages, and the methods of types that other packages or interface values can
reach.
-/

import FaultRepair.Flow.Body
import FaultRepair.Graph.Program

namespace FaultRepair.Flow

open Typing Source FaultRepair.Graph

/-- A walked function: its file, its package's path, its type, and what was noted. -/
structure Walked where
  file : Nat
  path : Text
  type : Ty
  summary : Summary
  deriving Inhabited

/-- What is needed to walk any function of a program. -/
structure Base where
  state : State
  walker : Walker
  escaped : Std.HashSet Nat
  /-- The declared type a method belongs to. -/
  owners : Std.HashMap Nat Nat

namespace Base

def tables (b : Base) : Tables := b.state.tables

/-- Local variables that a function literal uses from outside, or whose address is
taken. -/
def escapedVars (s : State) : Std.HashSet Nat :=
  let step (acc : Std.HashSet Nat) (k : Nat × Nat) (o : Nat) : Std.HashSet Nat :=
    let obj := s.tables.obj o
    if obj.kind == .var && !acc.contains o &&
        s.info.closures.any fun c => c.captures k.1 k.2 obj.pos then
      acc.insert o
    else acc
  s.info.uses.fold step s.info.addressed

def ofState (s : State) (depth : Nat) : Base :=
  let owners := (List.range s.tables.types.size).foldl (fun m i =>
    (s.tables.decl i).methods.foldl (fun m (_, o) => m.insert o i) m) ({} : Std.HashMap Nat Nat)
  { state := s, walker := Walker.ofDepth depth, escaped := escapedVars s, owners }

end Base

/-- Are there jumps in the statements that make the order of assignments unclear? -/
def hasGoto (body : Block) : Bool := !(Branch.gotos body.list).isEmpty

/-- The variables a list of parameters or results declares; none for those without a
name. -/
def fieldVars (s : State) (file : Nat) (fields : List Field) : List (Option Nat) :=
  fields.flatMap fun f =>
    if f.names.isEmpty then [none]
    else f.names.map fun id => s.info.defs.get? (file, id.pos)

section

variable (b : Base) (file : Nat) (path : Text) (σ : List (Nat × Ty)) (args : Text)

def returnsFromStep (body : Block) : Bool :=
  body.ranges.any fun (x, inner) =>
    inner.returnsValues && (b.state.info.types.get? (file, x.anchor)).any fun x =>
      b.tables.core? (x.type.subst σ) matches some (.func ..)

def paramsAndResults : Ty → List Ty × List Ty
  | .func ps _ rs => (ps, rs)
  | _ => ([], [])

/-- What a walk of a body notes. With `isShared` other functions use the named results. -/
def walk (fn home : Fn) (sig : Ty) (results : List Ty) (resultVars : List Nat) (body : Block)
    (isShared : Bool) (action : Walk Unit) : Walked :=
  let s := b.state
  let loose := hasGoto body
  let c : WalkContext :=
    { tables := s.tables, info := s.info, file, path, fn, home, subst := σ, args, results
      resultVars
      isGlobal := fun o => s.decls.contains o
      isEscaped := fun o => b.escaped.contains o || loose || (isShared && resultVars.contains o) }
  let ((), st) := (action.run c).run {}
  { file, path, type := sig, summary := st.summary }

def walkBody (fn : Fn) (sig : Ty) (type : FuncType) (body : Block) : Walked :=
  let s := b.state
  let (params, results) := paramsAndResults sig
  let paramVars := fieldVars s file type.params.list
  let resultVars := (fieldVars s file ((type.results.map (·.list)).getD [])).filterMap id
  walk b file path σ args fn fn sig results resultVars body
    (body.defers || returnsFromStep b file σ body) do
      for ((o, ty), i) in (paramVars.zip params).zipIdx do
        let some o := o | pure ()
        if isTracked s.tables ty then Walk.writeVar o [.param fn i]
      for o in resultVars do
        if !(← read).isEscaped o then Walk.writeVar o []
      b.walker.stmts body.list
      if (← get).env.isSome then Walk.returnVars

/-- Walk the body of a loop over a function. Its variables of the function around it are
those that it captures. -/
def walkLoop (fn : Fn) (l : LoopBody) : Walked :=
  walk b file path σ args fn l.home l.type l.results l.resultVars l.body true do
    let values := (paramsAndResults l.type).1.zipIdx.map fun (ty, i) =>
      (valueFrom b.tables (.param fn i) ty, ty)
    bindRange b.walker ([l.key, l.value].zip values)
    b.walker.stmts l.body.list

end

/-- A function that only calls another, with its own parameters. -/
def forwarding (path : Text) (fn : Fn) (sig : Ty) (target : Target) (skip : Nat) : Walked :=
  let (params, results) := paramsAndResults sig
  let args := (params.zipIdx.drop skip).map fun (ty, i) => ([Node.param fn i], ty)
  let edges := results.zipIdx.foldl (fun (acc : Std.HashSet (Node × Node)) (_, i) =>
    acc.insert (.returned fn 0 i, .result fn i)) {}
  let mentioned : Std.HashSet Fn := match target with
    | .static f => ({} : Std.HashSet Fn).insert f
    | _ => {}
  { file := 0, path, type := sig
    summary := { edges, mentioned
                 calls := ({} : Std.HashMap Nat Call).insert 0 { target, args, results } } }

/-- The method a type has under a name, as it runs: its declaration, or a function
that forwards to it. -/
def methodFn? (t : Tables) (ty : Ty) (name pkg : Text) : Option Fn :=
  match t.lookup ty name pkg with
  | some (.method path decl args indirect) =>
    let ptrRecv := (t.obj decl).ptrRecv
    if ptrRecv && !indirect then none
    else if path.isEmpty && ptrRecv == ty.isPointer then some (.declared decl (tyKeys args))
    else some (.forward (tyKey ty) name pkg)
  | some (.abstract path _ _) => if path.isEmpty then none else some (.forward (tyKey ty) name pkg)
  | _ => none

/-- The names of the methods a type may have, its embedded fields included. -/
def methodNames (t : Tables) : Nat → Ty → List (Text × Text)
  | 0, _ => []
  | fuel + 1, ty =>
    let base := match ty with
      | .pointer e | e => e
    let own := match base with
      | .named i _ => (t.decl i).methods.map fun (n, o) => (n, t.pathOf (t.obj o))
      | _ => []
    let inner := match t.under base with
      | .struct fs => fs.flatMap fun m => if m.embedded then methodNames t fuel m.type else []
      | .iface ms _ _ => ms.map fun m => (m.name, m.pkg)
      | _ => []
    own ++ inner

/-- The methods of a type that is no interface, as they run. -/
def methodFns (t : Tables) (ty : Ty) : List (Fn × Text × Text) :=
  if t.isInterface ty then []
  else ((methodNames t 16 ty).eraseDups).filterMap fun (n, p) =>
    (methodFn? t ty n p).map fun f => (f, n, p)

def methodTypes (t : Tables) (ty : Ty) : List Ty :=
  ((methodNames t 16 ty).eraseDups).filterMap fun (n, p) =>
    match t.lookup ty n p with
    | some (.method _ decl args indirect) =>
      if (t.obj decl).ptrRecv && !indirect then none else some (t.methodType decl args)
    | some (.abstract _ m _) => some m.type
    | _ => none

/-- The types reachable from the parts of types; each is marked if it counts itself. -/
def elementTypes (t : Tables) :
    Nat → List (Ty × Bool) → Std.HashMap Text (Ty × Bool) → Std.HashMap Text (Ty × Bool)
  | 0, _, seen => seen
  | _, [], seen => seen
  | fuel + 1, (ty, counts) :: rest, seen =>
    let k := tyKey ty
    if seen.contains k then elementTypes t fuel rest seen
    else
      let seen := seen.insert k (ty, counts)
      let signature (s : Ty) : List (Ty × Bool) :=
        let (ps, rs) := paramsAndResults s
        (ps ++ rs).map (·, true)
      let methods := (methodTypes t ty).flatMap signature
      let parts : List (Ty × Bool) := match ty with
        | .pointer e | .slice e | .array _ e | .chan _ e => [(e, true)]
        | .map a b => [(a, true), (b, true)]
        | .func .. => signature ty
        | .struct fs => fs.map fun m => (m.type, true)
        | .named .. => [(.pointer ty, true), (t.under ty, false)]
        | _ => []
      elementTypes t fuel (methods ++ parts ++ rest) seen

/-- The types whose methods interface values may reach. -/
def runtimeTypes (t : Tables) (made : Std.HashMap Text Ty) : List Ty :=
  let start :=
    made.toList.filterMap fun (_, ty) => if ty.mentions none then none else some (ty, true)
  ((elementTypes t 20000 start {}).toList.filterMap fun (_, (ty, counts)) =>
    if counts && !ty.mentions none then some ty else none)

/-- The functions of a program walked so far, and types by key. -/
structure Bodies where
  walked : Std.HashMap Fn Walked := {}
  types : Std.HashMap Text Ty := {}
  made : Std.HashMap Text Ty := {}

namespace Bodies

def insert (bs : Bodies) (fn : Fn) (w : Walked) : Bodies :=
  { walked := bs.walked.insert fn w
    types := w.summary.receivers.fold (·.insert) (w.summary.made.fold (·.insert) bs.types)
    made := w.summary.made.fold (·.insert) bs.made }

section

variable (b : Base) (file : Nat) (path : Text) (σ : List (Nat × Ty)) (args : Text)

/-- A walked function, and those for the literals and loops in it. -/
def addWalked : Nat → Fn → Walked → Bodies → Bodies
  | 0, _, _, bs => bs
  | fuel + 1, fn, w, bs =>
    let bs := bs.insert fn w
    let bs := w.summary.literals.toList.foldl (fun bs (f, (type, body)) =>
      let sig := match b.state.info.types.get? (file, (Expr.funcLit type body).anchor) with
        | some x => x.type.subst σ
        | none => .invalid
      addWalked fuel f (walkBody b file path σ args f sig type body) bs) bs
    w.summary.loops.toList.foldl (fun bs (f, l) =>
      addWalked fuel f (walkLoop b file path σ args f l) bs) bs

def addBody (fn : Fn) (sig : Ty) (type : FuncType) (body : Block) (bs : Bodies) : Bodies :=
  addWalked b file path σ args 64 fn (walkBody b file path σ args fn sig type body) bs

end

variable (b : Base)

def addDeclared (obj : Nat) (targs : List Ty) (bs : Bodies) : Bodies :=
  match b.state.decls.get? obj with
  | some (.func file d) =>
    let o := b.tables.obj obj
    let ps := if o.isMethod then o.recvParams else o.tparams
    let σ := ps.zip targs
    let path := b.tables.pathOf o
    let type := o.type.subst σ
    let args := tyKeys targs
    match d.body with
    | some body => addBody b file path σ args (.declared obj args) type d.type body bs
    | none => bs.insert (.declared obj args) { file, path, type, summary := {} }
  | _ => bs

def addForward (ty : Ty) (name pkg : Text) (fn : Fn) (bs : Bodies) : Bodies :=
  let t := b.tables
  let bound := match fn with
    | .value _ _ _ bound => some bound
    | _ => none
  let build (target : Target) (sig : Ty) (instances : List (Fn × List Ty)) : Bodies :=
    let (sig, skip) := match bound, sig with
      | some false, .func ps v rs => (Ty.func (ty :: ps) v rs, 1)
      | _, s => (s, 0)
    let w := forwarding pkg fn sig target skip
    let w := { w with summary := { w.summary with
      instances := instances.foldl (fun m (f, a) => m.insert f a) {} } }
    bs.insert fn w
  match t.lookup ty name pkg with
  | some (.method _ decl args _) =>
    let f := Fn.declared decl (tyKeys args)
    build (.static f) (t.methodType decl args) (if args.isEmpty then [] else [(f, args)])
  | some (.abstract path m _) =>
    match Walk.lastField t ty path with
    | some (base, i, fieldTy) =>
      build (.method fieldTy m.name m.pkg [.field (tyKey base) i]) m.type []
    | none =>
      let recv : Val := match bound with
        | some true => [.memory fn 0]
        | _ => [.param fn 0]
      build (.method ty m.name m.pkg recv) m.type []
  | _ => bs

/-- Walk the functions that those walked so far bring in: instances of generic
functions, methods as values, and methods of types in interface values. -/
def complete (b : Base) : Nat → Bodies → Bodies
  | 0, bs => bs
  | fuel + 1, bs =>
    let instances := bs.walked.fold (fun acc _ w =>
      w.summary.instances.fold (fun acc f a => (f, a) :: acc) acc) ([] : List (Fn × List Ty))
    let values := bs.walked.fold (fun acc _ w => w.summary.mentioned.toList ++ acc) ([] : List Fn)
    let types := runtimeTypes b.tables bs.made
    let bs := types.foldl (fun bs ty => { bs with types := bs.types.insert (tyKey ty) ty }) bs
    let methods :=
      types.flatMap fun ty => (methodFns b.tables ty).map fun (f, n, p) => (ty, f, n, p)
    let before := bs.walked.size
    let bs := instances.foldl (fun bs (f, a) =>
      match f with
      | .declared obj _ => if bs.walked.contains f then bs else addDeclared b obj a bs
      | _ => bs) bs
    let bs := values.foldl (fun bs f =>
      if bs.walked.contains f then bs
      else
        match f with
        | .value k n p _ =>
          match bs.types.get? k with
          | some ty => addForward b ty n p f bs
          | none => bs
        | _ => bs) bs
    let bs := methods.foldl (fun bs (ty, f, n, p) =>
      if bs.walked.contains f then bs
      else
        match f with
        | .forward .. => addForward b ty n p f bs
        | .declared obj _ =>
          match b.tables.lookup ty n p with
          | some (.method _ _ args _) => addDeclared b obj args bs
          | _ => bs
        | _ => bs) bs
    if bs.walked.size == before then bs else complete b fuel bs

variable (p : Program)

def soundPackages : List LoadedPackage := p.packages.filter (·.sound)

/-- The exported declared types of packages that are neither generic nor interfaces,
and pointers to them. -/
def exportedTypes : List Ty :=
  let numbers := (soundPackages p).filterMap fun q => (p.checked.package? q.path).map (·.number)
  numbers.flatMap fun i =>
    (b.tables.packages.getD i default).scope.toList.flatMap fun (n, o) =>
      let obj := b.tables.obj o
      match obj.kind, obj.type with
      | .type, .named i [] =>
        if isExported n && (b.tables.decl i).obj == o && !b.tables.isInterface obj.type then
          [obj.type, .pointer obj.type]
        else []
      | _, _ => []

/-- Walk all functions of the packages that are free of errors. -/
def ofProgram : Bodies :=
  let addFile (path : Text) (bs : Bodies) (f : LoadedFile) : Bodies :=
    let values := f.tree.decls.filterMap fun
      | .gen d => if d.tok == .kwVar then some (Stmt.decl d) else none
      | _ => none
    let bs := addBody b f.number path [] [] (.initial f.number) (.func [] false [])
      (.mk noPos none default none) (.mk noPos values noPos) bs
    f.tree.decls.foldl (fun bs d => match d with
      | .func d =>
        match b.state.info.defs.get? (f.number, d.name.pos) with
        | some o => addDeclared b o [] bs
        | none => bs
      | _ => bs) bs
  let bs := (soundPackages p).foldl (fun bs q => q.files.foldl (addFile q.path) bs) {}
  let bs := (exportedTypes b p).foldl (fun bs ty =>
    let bs := { bs with types := bs.types.insert (tyKey ty) ty }
    (methodFns b.tables ty).foldl (fun bs (f, n, pk) =>
      match f with
      | .forward .. => if bs.walked.contains f then bs else addForward b ty n pk f bs
      | _ => bs) bs) bs
  complete b 32 bs

def roots (bs : Bodies) : List Fn :=
  let declared := (soundPackages p).flatMap fun q => q.files.flatMap fun f =>
    .initial f.number :: f.tree.decls.filterMap fun
      | .func d =>
        if d.recv.isSome || d.name.name == [95] then none
        else (b.state.info.defs.get? (f.number, d.name.pos)).map (.declared · [])
      | _ => none
  let types := exportedTypes b p ++ runtimeTypes b.tables bs.made
  declared ++ types.flatMap fun ty => (methodFns b.tables ty).map (·.1)

def reach (bs : Bodies) : Nat → List Fn → Std.HashSet Fn → Std.HashSet Fn
  | 0, _, seen => seen
  | _, [], seen => seen
  | fuel + 1, f :: rest, seen =>
    match seen.contains f, bs.walked.get? f with
    | false, some w => reach bs fuel (w.summary.mentioned.toList ++ rest) (seen.insert f)
    | _, _ => reach bs fuel rest seen

def running (bs : Bodies) : Std.HashSet Fn :=
  let start := roots b p bs
  let total := bs.walked.fold (fun n _ w => n + w.summary.mentioned.size + 1) start.length
  reach bs (total + 1) start {}

end Bodies

end FaultRepair.Flow
