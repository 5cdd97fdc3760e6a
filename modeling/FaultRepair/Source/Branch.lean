/-
# Branches and the ends of functions

All statements that run as part of a body; where break, continue, goto and fallthrough lead, which
labels they need, and whether control can reach the end of a list of statements. All of this
depends on the shape of the statements only, save for which calls are calls of `panic`.
-/

import FaultRepair.Source.Tree

namespace FaultRepair.Source

mutual

def Stmt.nested (s : Stmt) : List Stmt :=
  s :: match s with
    | .labeled _ _ s => s.nested
    | .ifElse _ _ _ (.mk _ list _) other =>
      nestedIn list ++
        match other with
        | some s => s.nested
        | none => []
    | .block (.mk _ list _) | .switch _ _ _ (.mk _ list _) | .typeSwitch _ _ _ (.mk _ list _)
    | .select _ (.mk _ list _) | .loop _ _ _ _ (.mk _ list _) | .range _ _ _ _ _ _ _ (.mk _ list _)
    | .caseClause _ _ _ list | .commClause _ _ _ list => nestedIn list
    | _ => []

def nestedIn : List Stmt → List Stmt
  | [] => []
  | s :: rest => s.nested ++ nestedIn rest

end

def Block.defers (b : Block) : Bool :=
  (nestedIn b.list).any fun s => match s with
    | .deferCall .. => true
    | _ => false

def Block.returns (b : Block) : Bool :=
  (nestedIn b.list).any fun s => match s with
    | .ret .. => true
    | _ => false

def Block.returnsValues (b : Block) : Bool :=
  (nestedIn b.list).any fun s => match s with
    | .ret _ results => !results.isEmpty
    | _ => false

/-- The labels that a body leaves or continues, with which of the two it does. -/
def Block.leaves (b : Block) : List (Bool × Text) :=
  (nestedIn b.list).filterMap fun s => match s with
    | .branch _ .kwBreak (some id) => some (true, id.name)
    | .branch _ .kwContinue (some id) => some (false, id.name)
    | _ => none

def Block.ranges (b : Block) : List (Expr × Block) :=
  (nestedIn b.list).filterMap fun s => match s with
    | .range _ _ _ _ _ _ x body => some (x, body)
    | _ => none

namespace Branch

/-- Does a statement leave the statement around it: by an unlabelled break, if
`direct`, or by a break with the label? -/
def isBreak (label : Option Text) (direct : Bool) (tok : Token) (target : Option Ident) :
    Bool :=
  tok == .kwBreak && if let some id := target then label == some id.name else direct

mutual

/-- Does a statement break out of the statement with this label, or out of the
innermost one if `direct`? -/
def breaks (label : Option Text) (direct : Bool) : Stmt → Bool
  | .branch _ tok target => isBreak label direct tok target
  | .block (.mk _ list _) | .caseClause _ _ _ list | .commClause _ _ _ list =>
    anyBreaks label direct list
  | .labeled _ _ s => breaks label direct s
  | .ifElse _ _ _ (.mk _ list _) other =>
    anyBreaks label direct list ||
      match other with
      | some s => breaks label direct s
      | none => false
  | .switch _ _ _ (.mk _ list _) | .typeSwitch _ _ _ (.mk _ list _) | .select _ (.mk _ list _)
  | .loop _ _ _ _ (.mk _ list _) | .range _ _ _ _ _ _ _ (.mk _ list _) =>
    anyBreaks label false list
  | _ => false

def anyBreaks (label : Option Text) (direct : Bool) : List Stmt → Bool
  | [] => false
  | s :: rest => breaks label direct s || anyBreaks label direct rest

end

def isEmptyStmt (s : Stmt) : Bool := s matches .empty ..

def isDefaultClause (s : Stmt) : Bool := s matches .caseClause _ [] _ _

variable (list : List Stmt)

def endsInFallthrough : Bool :=
  (list.reverse.dropWhile isEmptyStmt).head? matches some (.branch _ .kwFallthrough _)

mutual

/-- Does control never go past the statement? `panics` tells the calls that do not
return, by the position of their parenthesis. -/
def terminates (panics : Pos → Bool) (label : Option Text) : Stmt → Bool
  | .ret .. => true
  | .branch _ tok _ => tok == .kwGoto || tok == .kwFallthrough
  | .expr (.call _ lparen _ _ _) | .expr (.paren _ (.call _ lparen _ _ _) _) => panics lparen
  | .block (.mk _ list _) => listTerminates panics list
  | .ifElse _ _ _ (.mk _ list _) other =>
    match other with
    | some s => listTerminates panics list && terminates panics none s
    | none => false
  | .labeled id _ s => terminates panics (some id.name) s
  | .loop _ _ cond _ (.mk _ list _) => cond.isNone && !anyBreaks label true list
  | .switch _ _ _ (.mk _ list _) | .typeSwitch _ _ _ (.mk _ list _) =>
    list.any isDefaultClause && clausesTerminate panics label list
  | .select _ (.mk _ list _) => clausesTerminate panics label list
  | _ => false

def listTerminates (panics : Pos → Bool) : List Stmt → Bool
  | [] => false
  | s :: rest =>
    if rest.all isEmptyStmt then terminates panics none s else listTerminates panics rest

/-- Does control leave each clause other than past its end, and no clause by a
break? -/
def clausesTerminate (panics : Pos → Bool) (label : Option Text) : List Stmt → Bool
  | [] => true
  | .caseClause _ _ _ list :: rest =>
    (listTerminates panics list || endsInFallthrough list) && !anyBreaks label true list &&
      clausesTerminate panics label rest
  | .commClause _ _ _ list :: rest =>
    listTerminates panics list && !anyBreaks label true list && clausesTerminate panics label rest
  | _ :: _ => false

end

/-- What encloses a statement: which unlabelled branches are allowed, and the labels
of enclosing loops and of other enclosing statements that can be left. -/
structure Context where
  canBreak : Bool := false
  canContinue : Bool := false
  canFallthrough : Bool := false
  loops : List Text := []
  others : List Text := []

/-- The labels some statements declare, nested ones included. -/
def labels : List Text :=
  (nestedIn list).filterMap fun
    | .labeled id _ _ => some id.name
    | _ => none

/-- The labels that branches in some statements name. -/
def targets : List Text :=
  (nestedIn list).filterMap fun
    | .branch _ _ (some id) => some id.name
    | _ => none

def gotos : List Text :=
  (nestedIn list).filterMap fun
    | .branch _ .kwGoto (some id) => some id.name
    | _ => none

/-- The lists of statements in some statements, clauses aside. -/
def lists : List (List Stmt) :=
  (nestedIn list).filterMap fun
    | .block (.mk _ list _) | .ifElse _ _ _ (.mk _ list _) _ | .caseClause _ _ _ list
    | .commClause _ _ _ list | .loop _ _ _ _ (.mk _ list _)
    | .range _ _ _ _ _ _ _ (.mk _ list _) => some list
    | _ => none

def declaresVariable : Stmt → Bool
  | .decl d => d.tok == .kwVar
  | .assign _ _ tok _ => tok == .define
  | _ => false

/-- The labels of a list of statements itself, each with its index. -/
def ownLabels : List (Text × Nat) :=
  list.zipIdx.flatMap fun (s, i) => chain s i
where
  chain : Stmt → Nat → List (Text × Nat)
    | .labeled id _ s, i => (id.name, i) :: chain s i
    | _, _ => []

/-- Is a jump forward from index `i` to `j` past a variable that is then declared? -/
def jumpsOver (i j : Nat) : Bool :=
  i < j && ((list.take j).drop (i + 1)).any declaresVariable

def Context.label (c : Context) (name : Text) : Stmt → Context
  | .loop .. | .range .. => { c with loops := name :: c.loops }
  | .switch .. | .typeSwitch .. | .select .. => { c with others := name :: c.others }
  | _ => { c with canFallthrough := false }

mutual

/-- Are all branches in a statement valid? Jumps may go to the labels in `visible`,
those of the enclosing lists of statements. -/
def valid (visible : List Text) (c : Context) : Stmt → Bool
  | .branch _ tok target =>
    match tok, target with
    | .kwBreak, none => c.canBreak
    | .kwContinue, none => c.canContinue
    | .kwFallthrough, _ => c.canFallthrough
    | .kwBreak, some id => c.loops.contains id.name || c.others.contains id.name
    | .kwContinue, some id => c.loops.contains id.name
    | .kwGoto, some id => visible.contains id.name
    | _, _ => true
  | .block (.mk _ list _) | .commClause _ _ _ list =>
    validList visible { c with canFallthrough := false } list
  | .labeled id _ s => valid visible (c.label id.name s) s
  | .ifElse _ _ _ (.mk _ list _) other =>
    validList visible { c with canFallthrough := false } list &&
      match other with
      | some s => valid visible { c with canFallthrough := false } s
      | none => true
  | .caseClause _ _ _ list => validList visible c list
  | .switch _ _ _ (.mk _ list _) =>
    validList visible { c with canBreak := true, canFallthrough := true } list
  | .typeSwitch _ _ _ (.mk _ list _) | .select _ (.mk _ list _) =>
    validList visible { c with canBreak := true, canFallthrough := false } list
  | .loop _ _ _ _ (.mk _ list _) | .range _ _ _ _ _ _ _ (.mk _ list _) =>
    validList visible { c with canBreak := true, canContinue := true, canFallthrough := false } list
  | _ => true

/-- Are all branches in statements valid? In a list that is the body of a clause,
falling through is for the last statement; in a list of clauses, for all but the
last. -/
def validList (visible : List Text) (c : Context) : List Stmt → Bool
  | [] => true
  | s :: rest =>
    let last := rest.all isEmptyStmt
    let isClause := s matches .caseClause ..
    valid visible { c with canFallthrough := c.canFallthrough && (last != isClause) } s &&
      validList visible c rest

end

/-- Does each `goto` in a list stay clear of the blocks and of the variables it
would skip? -/
def jumpsValid : Bool :=
  let own := ownLabels list
  list.zipIdx.all fun (s, i) =>
    (gotos [s]).all fun name => (own.lookup name).all (!jumpsOver list i ·)

/-- Is a label inside a nested list that does not enclose the jump to it? -/
def jumpsInside : Bool :=
  let all := list :: lists list
  all.all fun inner =>
    let own := (ownLabels inner).map (·.1)
    let within := gotos inner
    own.all fun name => (gotos list).count name == within.count name

def bodyValid (body : List Stmt) : Bool :=
  let names := labels body
  let used := targets body
  names.all (fun n => names.count n == 1 && used.contains n) &&
    validList names {} body && (body :: lists body).all jumpsValid && jumpsInside body

end Branch

end FaultRepair.Source
