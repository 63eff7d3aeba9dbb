import PointsTo.Solver.Propagation

/-!
# Calls and reachability

A method that becomes reachable under a context seeds its allocations, its assignments, its static
field accesses and its static calls, once. A call on an object is resolved when the object is new to
the receiver variable. Either way the first call from a site to a method under a context wires
arguments to parameters and returned variables to the result.
-/

namespace PointsTo

namespace Solve

variable {P : Problem}

/-! ## Wiring -/

/-- Stops unless a call has as many arguments as the called method has parameters. -/
def checkArity (call : Invoke) (callee : MethodId) : Solve P Unit := do
  let expected := (← P.program.methodAt callee).params.length
  let found := call.args.length
  if found ≠ expected then
    let caller ← P.program.methodName call.container
    let site := caller ++ "#" ++ toString call.position
    throw (.failed (.arityMismatch site (← P.program.methodName callee) expected found))

/-- Makes objects flow from arguments to parameters and from returned variables to the result. -/
def wireCall (caller : ContextId) (call : Invoke) (calleeContext : ContextId) (callee : MethodId) :
    Solve P Unit := do
  let method ← P.program.methodAt callee
  (call.args.zip method.params).forM fun (arg, param) =>
    flow (.var caller arg) (.var calleeContext param)
  match call.result with
  | none => return
  | some result =>
    let target ← pointer (.var caller result)
    method.returned.forM fun v => do
      let source ← pointer (.var calleeContext v)
      let _ ← addFlow source target

/-! ## Static calls and reachable methods -/

/-- Resolves a static call. Gives the called method if the call graph did not have the edge. -/
def callStatic (c : ContextId) (i : InvokeId) (call : Invoke) : Solve P (Option CsMethodId) := do
  match ← P.hierarchy.resolveStatic call.target with
  | none =>
    countUnresolved
    return none
  | some callee =>
    let site ← csCallSite c i
    let calleeContext ← select fun t => P.selector.callContext t ⟨c, i⟩ callee
    checkArity call callee
    let m ← csMethod calleeContext callee
    if !(← addCallEdge ⟨.static, site, m⟩) then return none
    wireCall c call calleeContext callee
    return some m

/-- Puts the object of an allocation on the worklist for the assigned variable. -/
def allocate (m : CsMethod) (position : Nat) (lhs : VarId) (ty : Ty) : Solve P Unit := do
  let obj ← objectOf ⟨m.method, position⟩ ty
  let heapContext ← select fun t => P.selector.heapContext t m obj
  let o ← csObj heapContext obj.id
  schedule (← pointer (.var m.context lhs)) (.singleton o)

/-- Seeds one statement. Gives the method that it calls statically, if that call is new. -/
def seedStmt (m : CsMethod) (position : Nat) : Stmt → Solve P (Option CsMethodId)
  | .new lhs ty => do
    allocate m position lhs ty
    return none
  | .copy lhs rhs => do
    flow (.var m.context rhs) (.var m.context lhs)
    return none
  | .loadField lhs (.global field) => do
    flow (.staticField field) (.var m.context lhs)
    return none
  | .storeField (.global field) rhs => do
    flow (.var m.context rhs) (.staticField field)
    return none
  | .invoke i => do
    let call ← P.program.invokeAt i
    if call.kind = .static then callStatic m.context i call else return none
  | _ => return none

/-- Seeds the statements of a body from a position on. Gives the methods of its new static calls,
the latest first. -/
def seedBody (m : CsMethod) (position : Nat) (callees : List CsMethodId) :
    List Stmt → Solve P (List CsMethodId)
  | [] => return callees
  | s :: rest => do
    let callee ← seedStmt m position s
    seedBody m (position + 1) (callee.toList ++ callees) rest

/-- Makes one method under a context reachable. If it was not, seeds its body and gives the methods
of its new static calls, the latest first. -/
def visit (m : CsMethodId) : Solve P (List CsMethodId) := do
  let method ← (← get).elements.csMethodAt m
  let sites ← (← P.program.invokesIn method.method).mapM (csCallSite method.context)
  let (isNew, callGraph) := (← get).callGraph.addReachable m sites
  if !isNew then return []
  modify fun s => { s with callGraph := callGraph }
  seedBody method 0 [] (← P.program.methodAt method.method).body.toList

/-- Makes the methods of a stack reachable, and whatever they call statically, the latest call
first. -/
def visitAll : Nat → List CsMethodId → Solve P Unit
  | _, [] => return
  | 0, _ :: _ => throw .outOfRounds
  | rounds + 1, m :: rest => do
    let callees ← visit m
    visitAll rounds (callees ++ rest)

/-- Makes a method under a context reachable, and whatever it calls statically. -/
def addReachable (m : CsMethodId) : Solve P Unit :=
  visitAll P.limit [m]

/-! ## Calls on objects -/

/-- The method that a call on an object reaches; nothing for a static call. -/
def target? (call : Invoke) (obj : Obj) : Except OutOfRange (Option MethodId) :=
  match call.kind with
  | .static => .ok none
  | .special => P.hierarchy.resolveSpecial call.target
  | .virtual | .interface => P.hierarchy.dispatchOn obj.ty call.target.subsignature

/-- Makes a call on an object reach a method. -/
def callOn (c : ContextId) (i : InvokeId) (call : Invoke) (recv : CsObjId) (recvObj : CsObj)
    (obj : Obj) (callee : MethodId) : Solve P Unit := do
  let calleeContext ← select fun t => P.selector.receiverContext t ⟨c, i⟩ recvObj obj callee
  match (← P.program.methodAt callee).receiver with
  | none => throw (.failed (.missingReceiver (← P.program.methodName callee)))
  | some self =>
    checkArity call callee
    schedule (← pointer (.var calleeContext self)) (.singleton recv)
    let site ← csCallSite c i
    let m ← csMethod calleeContext callee
    if ← addCallEdge ⟨call.kind, site, m⟩ then
      addReachable m
      wireCall c call calleeContext callee

/-- Resolves one call for an object that is new to its receiver variable. -/
def resolveCall (c : ContextId) (recv : CsObjId) (recvObj : CsObj) (i : InvokeId) :
    Solve P Unit := do
  let call ← P.program.invokeAt i
  let obj ← P.heapModel.objectAt (← get).heap recvObj.obj
  if call.kind = .static then return
  match ← target? (P := P) call obj with
  | none => countUnresolved
  | some callee => callOn c i call recv recvObj obj callee

/-- Resolves the calls on a variable for an object that is new to it. -/
def processCall (c : ContextId) (v : VarId) (recv : CsObjId) : Solve P Unit := do
  let recvObj ← (← get).elements.csObjAt recv
  (← P.program.varAt v).uses.invokes.forM (resolveCall c recv recvObj)

end Solve

end PointsTo
