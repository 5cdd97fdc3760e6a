/-
# Packages

Checking whole packages. Packages are checked after those they import; a package
that is not known, or that imports itself through others, cannot be imported.
-/

import FaultRepair.Typing.Decl
import FaultRepair.Source.Imports

namespace FaultRepair.Typing

open Source Text

/-- A package to check: its import path and its files, each with a number. -/
structure SourcePackage where
  path : Text
  files : List (Nat × Source.File)
  /-- Is something wrong with it before it is checked, such as a file that does not
  parse? -/
  broken : Bool
  language : Nat := newestLanguage

def basicTypes : List (String × Basic) :=
  [("bool", .bool), ("int", .int), ("int8", .int8), ("int16", .int16), ("int32", .int32),
   ("int64", .int64), ("uint", .uint), ("uint8", .uint8), ("uint16", .uint16), ("uint32", .uint32),
   ("uint64", .uint64), ("uintptr", .uintptr), ("float32", .float32), ("float64", .float64),
   ("complex64", .complex64), ("complex128", .complex128), ("string", .string),
   ("byte", .uint8), ("rune", .int32)]

def builtins : List (String × Builtin) :=
  [("append", .append), ("cap", .cap), ("clear", .clear), ("close", .close), ("complex", .complex),
   ("copy", .copy), ("delete", .delete), ("imag", .imag), ("len", .len), ("make", .make),
   ("max", .max), ("min", .min), ("new", .new), ("panic", .panic), ("print", .print),
   ("println", .println), ("real", .real), ("recover", .recover)]

def unsafeBuiltins : List (String × Builtin) :=
  [("Add", .addOffset), ("Alignof", .alignof), ("Offsetof", .offsetof), ("Sizeof", .sizeof),
   ("Slice", .slice), ("SliceData", .sliceData), ("String", .string), ("StringData", .stringData)]

def predeclare (o : Obj) : Check Unit := do
  let i ← newObj o
  modify fun s => { s with universe_ := s.universe_.insert o.name i }

def newPackage (p : Package) : Check Unit := modifyTables fun t =>
  { t with packages := t.packages.push p }

/-- The predeclared names, and the one package that is always known. -/
def predeclared : Check Unit := do
  for (n, b) in basicTypes do
    predeclare { name := ofString n, kind := .type, type := .basic b }
  for (n, b) in builtins do
    predeclare { name := ofString n, kind := .builtin b }
  predeclare { name := ofString "any", kind := .type, type := .any }
  for (n, b) in [("true", true), ("false", false)] do
    predeclare { name := ofString n, kind := .const, type := .basic .untypedBool,
                 value := some (.bool b) }
  predeclare { name := ofString "iota", kind := .const, type := .basic .untypedInt,
               value := some (.int 0) }
  predeclare { name := ofString "nil", kind := .nil, type := .basic .untypedNil }
  let comparable ← newType { obj := (← get).tables.objs.size, under := .iface [] none true }
  predeclare { name := ofString "comparable", kind := .type, type := .named comparable [] }
  let type : Ty := .func [] false [.basic .string]
  let method ← newObj { name := ofString "Error", kind := .func, isMethod := true, type }
  let error ← newType
    { obj := (← get).tables.objs.size
      under := .iface [.mk (ofString "Error") [] type method] none false }
  predeclare { name := ofString "error", kind := .type, type := .named error [] }
  let mut scope : Std.HashMap Text Nat := {}
  let package := (← get).tables.packages.size
  for (n, b) in unsafeBuiltins do
    let i ← newObj { name := ofString n, pkg := some package, kind := .builtin b }
    scope := scope.insert (ofString n) i
  let pointer ← newObj { name := ofString "Pointer", pkg := some package, kind := .type,
                         type := .basic .unsafePointer }
  scope := scope.insert (ofString "Pointer") pointer
  newPackage { path := ofString "unsafe", name := ofString "unsafe", scope }

def newGlobal (id : Ident) (o : Obj) (info : DeclInfo) : Check Nat := do
  let obj ← newObj o
  recordDef id obj
  modify fun s => { s with decls := s.decls.insert obj info }
  return obj

def thisPackage : Check Package := do
  let s ← get
  return s.tables.packages.getD s.package default

def enter (name : Text) (obj : Nat) : Check Unit := do
  let number := (← get).package
  modifyTables fun t => { t with
    packages := t.packages.modify number fun p => { p with scope := p.scope.insert name obj } }

def declareGlobal (id : Ident) (kind : ObjKind) (info : DeclInfo) : Check Nat := do
  let obj ← newGlobal id (← objAt id kind) info
  if id.name == [95] then return obj
  let pkg ← thisPackage
  let known := pkg.scope.contains id.name
  if known || id.name == "init" || (id.name == "main" && pkg.name == "main") then fail
  if !known then enter id.name obj
  return obj

/-- The last element of an import path, a guess at the name of an unknown package. -/
def guessName (path : Text) : Text :=
  let path := if path.getLast? == some 47 then path.dropLast else path
  (path.reverse.takeWhile (· != 47)).reverse

/-- Bring the package an import names into the scope of its file. -/
def importSpec (known : Text → Option Nat) (spec : Spec) : Check Unit := do
  let .imports _ name path _ _ := spec | return
  let p := (unquote? path.value).getD []
  let s ← get
  let number ← match known p with
    | some n => pure n
    | none => do
      fail
      newPackage { path := p, name := guessName p }
      pure s.tables.packages.size
  let pkg := (← tables).packages.getD number default
  let id := name.getD ⟨path.pos, pkg.name⟩
  if id.name == "init" then fail
  let obj ← newObj (← objAt id (.package number))
  if let some n := name then recordDef n obj
  let enter (name : Text) (o : Nat) : Check Unit := do
    let own := (← get).imports.getD s.file {}
    if own.contains name then fail
    modify fun s => { s with imports := s.imports.insert s.file (own.insert name o) }
  if id.name == [95] then useImport obj
  else if id.name == [46] then
    for (n, o) in pkg.scope.toList do
      if isExported n then
        enter n o
        modify fun s => { s with dotImports := s.dotImports.insert (s.file, o) obj }
  else enter id.name obj
  modify fun s => { s with importObjs := obj :: s.importObjs }

/-- Collect the names a value or type declaration introduces. -/
def collectGen (d : GenDecl) : Check (List Nat) := do
  let file := (← get).file
  let mut out : List Nat := []
  match d.tok with
  | .kwConst =>
    for c in constSpecs d.specs do
      if c.miscounted true then fail
      for (id, i) in c.names.zipIdx do
        out := out ++ [← declareGlobal id .const (.const file c.type c.values[i]? c.iota)]
  | .kwVar =>
    for spec in d.specs do
      let .value _ names type values _ := spec | pure ()
      if values.length == 1 && names.length > 1 then
        let first := (← tables).objs.size
        let objs := names.zipIdx.map fun (_, i) => first + i
        for id in names do
          out := out ++ [← declareGlobal id .var (.var file objs type values.head?)]
      else
        if !values.isEmpty && values.length != names.length then fail
        for (id, i) in names.zipIdx do
          let obj := (← tables).objs.size
          out := out ++ [← declareGlobal id .var (.var file [obj] type values[i]?)]
  | .kwType =>
    for spec in d.specs do
      let .type _ name params eq rhs _ := spec | pure ()
      let obj ← declareGlobal name .type (.type file params (eq != noPos) rhs)
      if eq == noPos then let _ ← newNamed obj params
      out := out ++ [obj]
  | _ => pure ()
  return out

/-- The declared type a name stands for, through aliases. -/
def baseType (s : State) (scope : Std.HashMap Text Nat) : Nat → Text → Option Nat
  | 0, _ => none
  | fuel + 1, name =>
    (scope.get? name).bind fun o =>
      match s.decls.get? o with
      | some (.type _ _ true rhs) =>
        match rhs.unparen with
        | .ident id => baseType s scope fuel id.name
        | _ => none
      | some (.type ..) =>
        match (s.tables.obj o).type with
        | .named i _ => some i
        | _ => none
      | _ => none

def collectFunc (d : FuncDecl) : Check Nat := do
  let info : DeclInfo := .func (← get).file d
  let name := d.name.name
  let pkg ← thisPackage
  let isMethod := d.recv.any (!·.list.isEmpty)
  let special := !isMethod && (name == "init" || (name == "main" && pkg.name == "main"))
  if special then
    if d.type.typeParams.isSome || d.type.params.count != 0 || d.type.results.isSome then fail
    if name == "init" && d.body.isNone then fail
  if !isMethod && !special then return (← declareGlobal d.name .func info)
  let obj ← newGlobal d.name { ← objAt d.name .func with isMethod } info
  if special && name == "main" then
    if pkg.scope.contains name then fail
    enter name obj
  return obj

/-- Attach a method to its type; its name must be new. -/
def attachMethod (obj : Nat) (d : FuncDecl) : Check Unit := do
  let some l := d.recv | return
  let f :: _ := l.list | return
  let s ← get
  let scope := (← thisPackage).scope
  let name := (f.type.map receiverParts).bind fun (_, n, _) => n
  let some i := name.bind fun id => baseType s scope 16 id.name | return
  if d.name.name == [95] then return
  let decl := s.tables.decl i
  if (decl.methods.lookup d.name.name).isSome then fail
  else modifyDecl i fun t => { t with methods := t.methods ++ [(d.name.name, obj)] }

def containsItself (t : Tables) : Nat → List Nat → Ty → Bool
  | 0, _, _ => false
  | fuel + 1, path, ty =>
    match ty with
    | .named i _ =>
      path.contains i || containsItself t fuel (i :: path) (t.decl i).under
    | .array _ e => containsItself t fuel path e
    | .struct fs => fs.any fun m => containsItself t fuel path m.type
    | _ => false

/-- Fields and methods of a type must have different names. -/
def namesClash (d : TypeDecl) : Bool :=
  match d.under with
  | .struct fs => fs.any fun m => (d.methods.lookup m.name).isSome
  | _ => false

def embeddable (t : Tables) (ty : Ty) : Bool :=
  match ty with
  | .pointer e =>
    !(t.under e matches .pointer _ | .iface ..) && !e.isParam
  | .param _ => false
  | .named .. =>
    !(t.under ty matches .pointer _ | .basic .unsafePointer)
  | ty => !(ty matches .basic .unsafePointer)

/-- The checks put off, once all declarations are known. -/
def runDeferred : Nat → Check Unit
  | 0 => return
  | fuel + 1 => do
    let ds := (← get).deferred
    if ds.isEmpty then return
    modify ({ · with deferred := [] })
    let t ← tables
    for d in ds do
      match d with
      | .instance params args => if !satisfied t params args then fail
      | .mapKey k => if !k.isInvalid && !t.comparable k then fail
      | .ordinary ty => if t.isConstraint ty then fail
      | .embedded ty => if !ty.isInvalid && !embeddable t ty then fail
    runDeferred fuel

/-- Check the bodies of functions, which may add no more of them. -/
def runBodies (r : Rules) : Check Unit := do
  let bodies := (← get).bodies.reverse
  modify ({ · with bodies := [] })
  for b in bodies do
    modify ({ · with file := b.file, owner := some b.owner, frames := [], iota := none })
    let named := b.frame.filter fun (n, _) => b.names.any (·.name == n)
    checkBody r b.frame b.results named (!b.names.isEmpty) b.body
  modify ({ · with owner := none })

/-- Everything an object refers to, directly or not. -/
def reach (deps : Std.HashMap Nat (List Nat)) :
    Nat → List Nat → Std.HashSet Nat → Std.HashSet Nat
  | 0, _, seen => seen
  | _, [], seen => seen
  | fuel + 1, o :: rest, seen =>
    if seen.contains o then reach deps fuel rest seen
    else reach deps fuel (deps.getD o [] ++ rest) (seen.insert o)

def initCycle (s : State) (objs : List Nat) : Bool :=
  let size := s.deps.fold (fun n _ ds => n + ds.length + 1) 1
  objs.any fun o =>
    (s.tables.obj o).kind == .var && (reach s.deps (size + 1) (s.deps.getD o []) {}).contains o

def checkUnit (r : Rules) (known : Text → Option Nat) (u : SourcePackage) : Check Bool := do
  let number := (← tables).packages.size
  let name := ((u.files.map fun (_, f) => f.name.name).find? fun n => n != [95] && n != []).getD []
  newPackage { path := u.path, name }
  modify ({ · with package := number, path := u.path, language := u.language, ill := false,
                   locals := [], bodies := [], deferred := [], importObjs := [], frames := [],
                   owner := none })
  let files := u.files.filter fun (_, f) => f.name.name == name
  if files.length != u.files.length then fail
  let mut objs : List Nat := []
  let mut methods : List (Nat × FuncDecl) := []
  for (n, f) in files do
    modify ({ · with file := n })
    for d in f.decls do
      match d with
      | .gen d =>
        if d.tok == .kwImport then d.specs.forM (importSpec known)
        else objs := objs ++ (← collectGen d)
      | .func d =>
        let obj ← collectFunc d
        objs := objs ++ [obj]
        if d.recv.isSome then methods := methods ++ [(obj, d)]
      | .bad .. => fail
  for (n, _) in files do
    let scope := (← thisPackage).scope
    if ((← get).imports.getD n {}).any fun name _ => scope.contains name then fail
  methods.forM fun (o, d) => attachMethod o d
  let t ← tables
  let types := objs.filter fun o => (t.obj o).kind == .type
  (types.filter fun o => !(t.obj o).type.isInvalid).forM r.object
  types.forM r.object
  let t ← tables
  for o in types do
    let .named i _ := (t.obj o).type | pure ()
    if (t.decl i).obj == o then
      if containsItself t (t.types.size + 8) [] (.named i []) then fail
      if namesClash (t.decl i) then fail
  (objs.filter fun o => (t.obj o).kind == .func).forM r.object
  objs.forM r.object
  runBodies r
  runDeferred 64
  let s ← get
  if initCycle s objs then fail
  if s.locals.any fun o => !s.used.contains o then fail
  if s.importObjs.any fun o => !s.usedImports.contains o then fail
  return u.broken || (← get).ill

structure CheckedPackage where
  path : Text
  number : Nat
  faulty : Bool
  /-- Is it free of errors, and so are all it imports? -/
  sound : Bool

structure Checked where
  state : State
  packages : List CheckedPackage
  deriving Inhabited

def Checked.package? (c : Checked) (path : Text) : Option CheckedPackage :=
  c.packages.find? (·.path == path)

def importPaths (u : SourcePackage) : List Text :=
  u.files.flatMap fun (_, f) => f.decls.flatMap fun
    | .gen d =>
      if d.tok == .kwImport then
        d.specs.filterMap fun
          | .imports _ _ path _ _ => unquote? path.value
          | _ => none
      else []
    | _ => []

/-- Check a package and first those it imports; `active` are the paths on the way
here. -/
def checkPath (r : Rules) (units : List SourcePackage) :
    Nat → List Text → Text → Checked → Checked
  | 0, _, _, c => c
  | fuel + 1, active, path, c =>
    if (c.package? path).isSome || active.contains path then c
    else
      match units.find? (·.path == path) with
      | none => c
      | some u =>
        let imports := (importPaths u).filter fun p => units.any (·.path == p)
        let c := imports.foldl (fun c p => checkPath r units fuel (path :: active) p c) c
        let known (p : Text) : Option Nat :=
          if p == "unsafe" then some 0
          else if p == path || active.contains p then none
          else (c.package? p).map (·.number)
        let number := c.state.tables.packages.size
        let (ill, s) := (checkUnit r known u).run c.state
        let tainted := imports.any fun p => !((c.package? p).any (·.sound))
        { state := s, packages := c.packages ++ [⟨path, number, ill, !(ill || tainted)⟩] }

def checkUnits (depth : Nat) (units : List SourcePackage) : Checked :=
  let r := Rules.ofDepth depth
  let start : Checked := { state := (predeclared.run {}).2, packages := [] }
  units.foldl (fun c u => checkPath r units (units.length + 1) [] u.path c) start

end FaultRepair.Typing
