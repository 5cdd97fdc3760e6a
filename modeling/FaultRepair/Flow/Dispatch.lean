/-
# Dispatch of interface method calls

Which methods a call through an interface can reach. Types flow along assignments,
calls and the elements of data; a call reaches the methods of the types that flow to
its receiver. Arguments and results flow between a call and every function that
could be called by its type alone.
-/

import FaultRepair.Flow.Functions
import FaultRepair.Module.Set
import FaultRepair.Report.Notice

namespace FaultRepair.Flow

open Typing Source FaultRepair.Graph FaultRepair.Module Report

/-- The functions that run, arranged for looking up what a call may call. -/
structure Callables where
  base : Base
  bodies : Bodies
  running : Std.HashSet Fn
  /-- The methods by name, each with its receiver type. -/
  methods : Std.HashMap Text (List (Fn × Text × Ty))
  functions : Std.HashMap Text (List Fn)

namespace Callables

/-- The receiver type of a method, and the package of its name. -/
def receiver? (b : Base) (bs : Bodies) (fn : Fn) : Option (Text × Text × Ty) :=
  match fn with
  | .declared obj args =>
    let o := b.tables.obj obj
    if !o.isMethod then none
    else
      (b.owners.get? obj).bind fun i =>
        let d := b.tables.decl i
        let targs := if args.isEmpty then d.params.map Ty.param
          else
            ((bs.walked.toList.findSome? fun (_, w) => w.summary.instances.get? fn) <|>
              bs.types.toList.findSome? fun
                | (_, .named j a) | (_, .pointer (.named j a)) =>
                  if j == i && tyKeys a == args then some a else none
                | _ => none).getD []
        let ty := Ty.named i targs
        some (o.name, b.tables.pathOf o, if o.ptrRecv then .pointer ty else ty)
  | .forward recv name pkg => (bs.types.get? recv).map fun ty => (name, pkg, ty)
  | _ => none

def isMethod (b : Base) : Fn → Bool
  | .declared obj _ => (b.tables.obj obj).isMethod
  | .forward .. => true
  | _ => false

def ofProgram (b : Base) (p : Program) : Callables :=
  let bs := Bodies.ofProgram b p
  let running := bs.running b p
  let methods := running.fold (fun m f =>
    match receiver? b bs f with
    | some (name, pkg, ty) => m.insert name ((f, pkg, ty) :: m.getD name [])
    | none => m) ({} : Std.HashMap Text (List (Fn × Text × Ty)))
  let functions := running.fold (fun m f =>
    if isMethod b f || f matches .initial _ then m
    else
      let k := tyKey (bs.walked.getD f default).type
      m.insert k (f :: m.getD k [])) ({} : Std.HashMap Text (List Fn))
  { base := b, bodies := bs, running, methods, functions }

/-- The methods a call of an interface's method may call, going by types alone. -/
def implementing (c : Callables) (iface : Ty) (name pkg : Text) : List Fn :=
  ((c.methods.getD name []).filter fun (_, p, ty) =>
    (isExported name || p == pkg) && c.base.tables.implements ty iface).map (·.1)

def possible (c : Callables) (t : Target) : List Fn :=
  match t with
  | .static f => [f]
  | .method iface name pkg _ => c.implementing iface name pkg
  | .dynamic sig => c.functions.getD (tyKey sig) []

/-- The edges between a call and a function it may call. -/
def link (c : Callables) (caller : Fn) (lparen : Nat) (call : Call) (callee : Fn) :
    List (Node × Node) :=
  let t := c.base.tables
  let args := call.args.zipIdx.flatMap fun ((v, ty), i) =>
    if isTracked t ty then
      v.flatMap fun n =>
        (n, Node.param callee i) ::
          (if ty.isPointer then [(Node.param callee i, n)] else [])
    else []
  let results := call.results.zipIdx.filterMap fun (ty, i) =>
    if isTracked t ty then some (Node.result callee i, Node.returned caller lparen i) else none
  args ++ results

def edges (c : Callables) : Std.HashMap Node (List Node) :=
  let insert (m : Std.HashMap Node (List Node)) (e : Node × Node) : Std.HashMap Node (List Node) :=
    m.insert e.1 (e.2 :: m.getD e.1 [])
  let all := c.running.fold (fun (acc : Std.HashSet (Node × Node)) f =>
    match c.bodies.walked.get? f with
    | none => acc
    | some w =>
      let acc := w.summary.edges.fold (·.insert) acc
      w.summary.calls.fold (fun acc lparen call =>
        (c.possible call.target).foldl (fun acc g =>
          (c.link f lparen call g).foldl (·.insert) acc) acc) acc) {}
  (all.insert (.panicked, .recovered)).fold insert {}

def spread (es : Std.HashMap Node (List Node)) :
    Nat → List Node → Std.HashSet Node → Std.HashSet Node
  | 0, _, seen => seen
  | _, [], seen => seen
  | fuel + 1, n :: rest, seen =>
    if seen.contains n then spread es fuel rest seen
    else spread es fuel (es.getD n [] ++ rest) (seen.insert n)

def reachingTypes (c : Callables) : Std.HashMap Node (List Text) :=
  let es := c.edges
  let total := es.fold (fun n _ out => n + out.length + 1) 1
  c.bodies.types.fold (fun m k _ =>
    (spread es (total + 1) [.concrete k] {}).fold (fun m n => m.insert n (k :: m.getD n [])) m) {}

end Callables

/-- The types that reach each node, with what runs. -/
structure Flows where
  callables : Callables
  reaching : Std.HashMap Node (List Text)

namespace Flows

/-- Is the function made rather than written, so that its own callees stand for it? -/
def isMade : Fn → Bool
  | .declared _ args => !args.isEmpty
  | .forward .. | .value .. => true
  | _ => false

/-- The methods that the types at a receiver have, of those the call may call. -/
def reached (f : Flows) (iface : Ty) (name pkg : Text) (recv : Val) : List Fn :=
  let c := f.callables
  let types := (recv.flatMap fun n => f.reaching.getD n []).eraseDups
  let possible := c.implementing iface name pkg
  (types.filterMap fun k =>
    (c.bodies.types.get? k).bind fun ty =>
      match methodFn? c.base.tables ty name pkg with
      | some (.declared o args) => if args.isEmpty then some (.declared o args) else none
      | f => f).filter possible.contains

def written (f : Flows) : Nat → Fn → List Fn
  | 0, _ => []
  | fuel + 1, fn =>
    if !isMade fn then [fn]
    else
      match f.callables.bodies.walked.get? fn with
      | none => []
      | some w => w.summary.calls.toList.flatMap fun (_, call) =>
        let callees := match call.target with
          | .static g => [g]
          | .method iface name pkg recv => f.reached iface name pkg recv
          | .dynamic _ => []
        callees.flatMap (written f fuel)

/-- The declared methods a call through an interface reaches. -/
def callees (f : Flows) (iface : Ty) (name pkg : Text) (recv : Val) : List Nat :=
  (((f.reached iface name pkg recv).flatMap (f.written 8)).filterMap fun
    | .declared o _ => some o
    | _ => none).eraseDups

end Flows

/-- A call through an interface with the methods it reaches, of which there is at
least one. -/
structure Site where
  file : Nat
  lparen : Pos
  callees : List Nat

/-- All calls through interfaces that reach a method. -/
structure Dispatch where
  sites : List Site := []
  functions : Nat := 0

namespace Dispatch

def isInstance : Fn → Bool
  | .declared _ args | .literal _ _ args => !args.isEmpty
  | .initial _ => false
  | _ => true

def siteBefore (a b : Site) : Bool :=
  a.file < b.file || (a.file == b.file && a.lparen ≤ b.lparen)

/-- Resolve the calls through interfaces of a program, as far as they are made in the
given modules. -/
def ofProgram (p : Program) (ms : ModuleSet) : Dispatch :=
  let c := Callables.ofProgram (Base.ofState p.checked.state p.depth) p
  let f : Flows := { callables := c, reaching := c.reachingTypes }
  let sites := c.running.fold (fun acc fn =>
    match c.bodies.walked.get? fn with
    | none => acc
    | some w =>
      if isInstance fn || !ms.knowsPackage w.path then acc
      else
        w.summary.calls.fold (fun acc lparen call =>
          match call.target with
          | .method iface name pkg recv =>
            let found := f.callees iface name pkg recv
            if found.isEmpty then acc else { file := w.file, lparen, callees := found } :: acc
          | _ => acc) acc) ([] : List Site)
  { sites := sites.mergeSort siteBefore, functions := c.running.size }

/-- The only method a call reaches, if it reaches one only. -/
def unique? (d : Dispatch) (file : Nat) (lparen : Pos) : Option Nat :=
  (d.sites.find? fun s => s.file == file && s.lparen == lparen).bind fun s =>
    match s.callees with
    | [o] => some o
    | _ => none

def notices (d : Dispatch) (p : Program) : List Notice :=
  let skipped := p.loaded.filter (!·.sound)
  [.log "Building SSA..."] ++
    (skipped.map fun q => .verbose ("SSA build skipped package: " ++ q.path)) ++
    (if skipped.isEmpty then []
      else [.warning (Text.ofNat skipped.length ++ " packages failed SSA construction")]) ++
    [.log ("Building VTA call graph over " ++ Text.ofNat d.functions ++ " functions..."),
     .log ("VTA: " ++ Text.ofNat d.sites.length ++ " dynamic call sites, " ++
       Text.ofNat ((d.sites.map (·.callees.length)).foldl (· + ·) 0) ++ " site/callee pairs")]

end Dispatch

end FaultRepair.Flow
