/-
This file models the HTTP interface of the resource manager
(`HTTPHandler::onRequest` in `server/resource_manager/http.cpp`), through which
nodes are added to the store. A request has a resource, a query parameter for
the name of the node, and a body that is parsed as JSON.

The accessors of the JSON library have preconditions: members are looked up in
objects only, and a value is read under its own type only. Nothing happens that
the library defines if they are violated, and the model stops there. The handler
looks for members without knowing that the body is an object, and where it means
to check the type of the memory it checks that of the cores once more. What it
accepts passes through the narrow parameter of `Executors::add_executor`.
-/

import RFaaS.NodeNames
import Mathlib.Algebra.Ring.Int.Defs
import Mathlib.Data.List.TakeWhile

namespace RFaaS

/-! ### JSON -/

/-- `rapidjson::Value`. Numbers that are no integers are not told apart. -/
inductive Json
  | null
  | bool (value : Bool)
  | integer (value : Int)
  | real
  | string (text : String)
  | array (elements : List Json)
  | object (members : List (String × Json))

/-- How a request can end without an answer: a precondition of the JSON library is violated, or an
exception leaves the handler. -/
inductive HttpFailure
  | undefined
  | notImplemented
  deriving DecidableEq

namespace Json

/-- `FindMember`. -/
def find (members : List (String × Json)) (name : String) : Option Json :=
  (members.find? (·.1 == name)).map Prod.snd

def isString : Json → Bool
  | .string _ => true
  | _ => false

/-- `IsInt`: an integer that an `int` can hold. -/
def isInt : Json → Bool
  | .integer value => decide (-2 ^ 31 ≤ value ∧ value < 2 ^ 31)
  | _ => false

def hasMember (document : Json) (name : String) : Except HttpFailure Bool :=
  match document with
  | .object members => .ok (find members name).isSome
  | _ => .error .undefined

/-- `document[name]`. -/
def member (document : Json) (name : String) : Except HttpFailure Json :=
  match document with
  | .object members =>
    match find members name with
    | some value => .ok value
    | none => .error .undefined
  | _ => .error .undefined

def getInt (value : Json) : Except HttpFailure Int :=
  match value with
  | .integer number => if value.isInt then .ok number else .error .undefined
  | _ => .error .undefined

/-- `std::string{GetString()}`. The text is followed by a terminator and may have others in it. -/
def getString (value : Json) : Except HttpFailure String :=
  match value with
  | .string text =>
    match CString.read nul (text.toList ++ [nul]) with
    | some read => .ok (String.ofList read)
    | none => .error .undefined
  | _ => .error .undefined

/-- `document.HasMember(name) && document[accessed].test()`. -/
def holds (document : Json) (name accessed : String) (test : Json → Bool) :
    Except HttpFailure Bool := do
  if ← document.hasMember name then
    return test (← document.member accessed)
  else
    return false

end Json

/-! ### The handler -/

inductive HttpCode
  | ok
  | badRequest
  | notFound
  | internalServerError
  deriving DecidableEq

/-- The answer to a request, and the store afterwards. `called` is a ghost: the arguments that have
reached `Executors::add_executor`. -/
structure HttpResponse where
  code : HttpCode
  text : String
  db : ExecutorDB
  called : Option ServerData

/-- The arguments with which `ExecutorDB::add` calls `add_executor`, if it does. -/
def ExecutorDB.addCall (nodeName ipAddress : String) (port cores memory : Int) :
    Option ServerData :=
  if nodeName.length < nodeNameLength then none
  else some ⟨port, toInt16 cores, memory, ipAddress, nodeName⟩

namespace HTTPHandler

/-- The condition of `/add` for a malformed input, which is evaluated from the left. -/
def malformedAdd (document : Json) : Except HttpFailure Bool := do
  if !(← document.holds "ip_address" "ip_address" Json.isString) then return true
  if !(← document.holds "port" "port" Json.isInt) then return true
  if !(← document.holds "cores" "cores" Json.isInt) then return true
  return !(← document.holds "memory" "cores" Json.isInt)

/-- The condition of `/remove`. -/
def malformedRemove (document : Json) : Except HttpFailure Bool := do
  if !(← document.holds "ip_address" "ip_address" Json.isString) then return true
  if !(← document.holds "port" "port" Json.isInt) then return true
  return !(← document.holds "cores" "cores" Json.isInt)

/-- The end of `/add`. -/
def store (db : ExecutorDB) (nodeName ipAddress : String) (port cores memory : Int) :
    HttpResponse :=
  let called := ExecutorDB.addCall nodeName ipAddress port cores memory
  match db.add nodeName ipAddress port cores memory with
  | (.ok, next) => ⟨.ok, "Sucess", next, called⟩
  | (_, next) => ⟨.internalServerError, "Failure", next, called⟩

/-- `/add`. -/
def add (db : ExecutorDB) (nodeName : String) (document : Json) :
    Except HttpFailure HttpResponse := do
  if ← malformedAdd document then
    return ⟨.badRequest, "Malformed Input", db, none⟩
  let ipAddress ← (← document.member "ip_address").getString
  let port ← (← document.member "port").getInt
  let cores ← (← document.member "cores").getInt
  let memory ← (← document.member "memory").getInt
  return store db nodeName ipAddress port cores memory

/-- `/remove`. `Executors::remove_executor` throws for every name. -/
def remove (db : ExecutorDB) (document : Json) : Except HttpFailure HttpResponse := do
  if ← malformedRemove document then
    return ⟨.badRequest, "Malformed Input", db, none⟩
  throw .notImplemented

/-- `HTTPHandler::onRequest`. A body that cannot be parsed leaves a document that is null. -/
def onRequest (db : ExecutorDB) (node : Option String) (resource : String) (parsed : Option Json) :
    Except HttpFailure HttpResponse :=
  let document := parsed.getD .null
  match node with
  | none => .ok ⟨.badRequest, "Malformed Parameters", db, none⟩
  | some nodeName =>
    if resource = "/add" then add db nodeName document
    else if resource = "/remove" then remove db document
    else .ok ⟨.notFound, "Operation not supported", db, none⟩

/-! ### The condition of the handler -/

variable {members : List (String × Json)}

theorem hasMember_object (name : String) :
    (Json.object members).hasMember name = .ok (Json.find members name).isSome := rfl

theorem member_of_find {name : String} {value : Json}
    (found : Json.find members name = some value) :
    (Json.object members).member name = .ok value := by
  simp only [Json.member, found]

theorem holds_object (name : String) (test : Json → Bool) :
    (Json.object members).holds name name test = .ok ((Json.find members name).any test) := by
  rw [Json.holds, hasMember_object]
  cases found : Json.find members name with
  | none => rfl
  | some value =>
    rw [member_of_find found]
    rfl

/-- A member that can be read as an `int`. -/
def IntMember (members : List (String × Json)) (name : String) (number : Int) : Prop :=
  Json.find members name = some (.integer number) ∧ (Json.integer number).isInt = true

/-- What the handler makes sure of. The memory may be anything. -/
structure Passes (members : List (String × Json)) (ipAddress : String) (port cores : Int)
    (memory : Json) : Prop where
  addressText : Json.find members "ip_address" = some (.string ipAddress)
  portNumber : IntMember members "port" port
  coresNumber : IntMember members "cores" cores
  memoryPresent : Json.find members "memory" = some memory

/-- The body describes a node, with an integer for its memory. -/
def Describes (members : List (String × Json)) (ipAddress : String) (port cores memory : Int) :
    Prop :=
  Passes members ipAddress port cores (.integer memory) ∧ (Json.integer memory).isInt = true

theorem exists_string {name : String}
    (isString : (Json.find members name).any Json.isString = true) :
    ∃ text, Json.find members name = some (.string text) := by
  cases found : Json.find members name with
  | none =>
    rw [found] at isString
    cases isString
  | some value =>
    rw [found] at isString
    cases value with
    | string text => exact ⟨text, rfl⟩
    | _ => cases isString

theorem exists_int {name : String} (isInt : (Json.find members name).any Json.isInt = true) :
    ∃ number, IntMember members name number := by
  cases found : Json.find members name with
  | none =>
    rw [found] at isInt
    cases isInt
  | some value =>
    rw [found] at isInt
    cases value with
    | integer number => exact ⟨number, found, isInt⟩
    | _ => cases isInt

theorem IntMember.any {name : String} {number : Int} (isInt : IntMember members name number) :
    (Json.find members name).any Json.isInt = true := by
  rw [isInt.1]
  exact isInt.2

/-- On an object the condition has a value, and it is false exactly for what passes. -/
theorem malformedAdd_object (members : List (String × Json)) :
    malformedAdd (.object members) = .ok true ∧
        (∀ ipAddress port cores memory, ¬Passes members ipAddress port cores memory) ∨
      malformedAdd (.object members) = .ok false ∧
        ∃ ipAddress port cores memory, Passes members ipAddress port cores memory := by
  simp only [malformedAdd, holds_object]
  cases address : (Json.find members "ip_address").any Json.isString with
  | false =>
    refine Or.inl ⟨rfl, fun ipAddress port cores memory passes => ?_⟩
    rw [passes.addressText] at address
    cases address
  | true =>
    cases port : (Json.find members "port").any Json.isInt with
    | false =>
      refine Or.inl ⟨rfl, fun _ _ _ _ passes => ?_⟩
      rw [passes.portNumber.any] at port
      cases port
    | true =>
      cases cores : (Json.find members "cores").any Json.isInt with
      | false =>
        refine Or.inl ⟨rfl, fun _ _ _ _ passes => ?_⟩
        rw [passes.coresNumber.any] at cores
        cases cores
      | true =>
        obtain ⟨coresValue, coresNumber⟩ := exists_int cores
        cases memory : Json.find members "memory" with
        | none =>
          refine Or.inl ⟨?_, fun _ _ _ _ passes => ?_⟩
          · rw [Json.holds, hasMember_object, memory]
            rfl
          · rw [passes.memoryPresent] at memory
            cases memory
        | some value =>
          obtain ⟨text, addressText⟩ := exists_string address
          obtain ⟨portValue, portNumber⟩ := exists_int port
          refine Or.inr ⟨?_, text, portValue, coresValue, value, addressText, portNumber,
            coresNumber, memory⟩
          rw [Json.holds, hasMember_object, memory, member_of_find coresNumber.1]
          show Except.ok (!(Json.integer coresValue).isInt) = _
          rw [coresNumber.2]
          rfl

/-- Without an object the first look for a member is undefined. -/
theorem malformedAdd_undefined {document : Json} (other : ∀ members, document ≠ .object members) :
    malformedAdd document = .error .undefined := by
  cases document with
  | object members => exact absurd rfl (other members)
  | _ => rfl

theorem getInt_of_isInt {number : Int} (isInt : (Json.integer number).isInt = true) :
    (Json.integer number).getInt = .ok number := if_pos isInt

/-- The text up to its first terminator. -/
def cut (text : String) : String := String.ofList (text.toList.takeWhile (· ≠ nul))

theorem getString_string (text : String) : (Json.string text).getString = .ok (cut text) := by
  rw [Json.getString, CString.read_append_nul]
  rfl

theorem cut_eq_self {text : String} : cut text = text ↔ nul ∉ text.toList := by
  have same : cut text = text ↔ text.toList.takeWhile (· ≠ nul) = text.toList := by
    rw [cut, ← String.toList_inj, String.toList_ofList]
  rw [same, List.takeWhile_eq_self_iff]
  simp only [ne_eq, decide_not, Bool.not_eq_true', decide_eq_false_iff_not]
  exact ⟨fun all inside => all nul inside rfl,
    fun absent symbol inside same => absent (same ▸ inside)⟩

theorem ok_bind {Value Result : Type} (value : Value)
    (next : Value → Except HttpFailure Result) : (Except.ok value >>= next) = next value := rfl

/-- A body that passes is used, as far as its memory can be read. -/
theorem add_of_passes {ipAddress : String} {port cores : Int} {memory : Json}
    (passes : Passes members ipAddress port cores memory)
    (wellFormed : malformedAdd (.object members) = .ok false) (db : ExecutorDB)
    (nodeName : String) :
    add db nodeName (.object members) =
      memory.getInt.map fun memory => store db nodeName (cut ipAddress) port cores memory := by
  rw [add, wellFormed, member_of_find passes.addressText, member_of_find passes.portNumber.1,
    member_of_find passes.coresNumber.1, member_of_find passes.memoryPresent]
  simp only [ok_bind, getString_string, getInt_of_isInt passes.portNumber.2,
    getInt_of_isInt passes.coresNumber.2]
  cases memory.getInt <;> rfl

theorem add_of_malformed {document : Json} (malformed : malformedAdd document = .ok true)
    (db : ExecutorDB) (nodeName : String) :
    add db nodeName document = .ok ⟨.badRequest, "Malformed Input", db, none⟩ := by
  rw [add, malformed]
  rfl

theorem add_of_undefined {document : Json}
    (undefined : malformedAdd document = .error .undefined) (db : ExecutorDB)
    (nodeName : String) : add db nodeName document = .error .undefined := by
  rw [add, undefined]
  rfl

/-! ### What is stored -/

/-- The executor under the name of a node has its data. -/
def Stored (db : ExecutorDB) (data : ServerData) : Prop :=
  ∃ ref, db.executors.byName.lookup data.node = some ref ∧
    (db.executors.objects ref).toServerData = data

theorem addExecutor_stored {executors : Executors} {data : ServerData}
    (added : (executors.addExecutor data).1.2 = true) :
    ∃ ref, (executors.addExecutor data).2.byName.lookup data.node = some ref ∧
      ((executors.addExecutor data).2.objects ref).toServerData = data := by
  unfold Executors.addExecutor at added ⊢
  dsimp only at added ⊢
  split at added
  · refine ⟨executors.fresh, AList.lookup_insert _, ?_⟩
    dsimp only
    rw [Executors.makeShared_objects, if_pos rfl]
    rfl
  · rename_i existing found
    split at added
    · cases added
    · rename_i waiting
      rw [if_neg waiting]
      refine ⟨existing, found, ?_⟩
      rw [Executors.store_objects, if_pos rfl]
      rfl

theorem addNode_stored {db : ExecutorDB} {data : ServerData}
    (added : (db.addNode data).1 = true) : Stored (db.addNode data).2 data := by
  have success : (db.executors.addExecutor data).1.2 = true := by
    unfold ExecutorDB.addNode at added
    split at added
    · cases added
    · rename_i same
      rw [same]
  rw [Stored, db.addNode_executors data]
  exact addExecutor_stored success

variable (db : ExecutorDB)

theorem store_called (nodeName ipAddress : String) (port cores memory : Int) :
    (store db nodeName ipAddress port cores memory).called =
      ExecutorDB.addCall nodeName ipAddress port cores memory := by
  rw [store]
  split <;> rfl

theorem store_code (nodeName ipAddress : String) (port cores memory : Int) :
    (store db nodeName ipAddress port cores memory).code ≠ .badRequest := by
  rw [store]
  split <;> exact HttpCode.noConfusion

/-- What was answered with success has been stored as it was called. -/
theorem store_stored {db : ExecutorDB} {nodeName ipAddress : String} {port cores memory : Int}
    (success : (store db nodeName ipAddress port cores memory).code = .ok) {data : ServerData}
    (called : ExecutorDB.addCall nodeName ipAddress port cores memory = some data) :
    Stored (store db nodeName ipAddress port cores memory).db data := by
  unfold ExecutorDB.addCall at called
  split at called
  · cases called
  · rename_i long
    cases called
    cases added : db.addNode ⟨port, toInt16 cores, memory, ipAddress, nodeName⟩ with
    | mk accepted next =>
      cases accepted with
      | false =>
        have refused : db.add nodeName ipAddress port cores memory = (.executorExists, next) := by
          rw [ExecutorDB.add, if_neg long, added]
        rw [store, refused] at success
        cases success
      | true =>
        have taken : db.add nodeName ipAddress port cores memory = (.ok, next) := by
          rw [ExecutorDB.add, if_neg long, added]
        have stored := @addNode_stored db ⟨port, toInt16 cores, memory, ipAddress, nodeName⟩
          (by rw [added])
        rw [added] at stored
        rw [store, taken]
        exact stored

theorem toInt16_eq_self_iff {value : Int} :
    toInt16 value = value ↔ -2 ^ 15 ≤ value ∧ value < 2 ^ 15 := by
  rw [toInt16, Int.bmod]
  omega

/-- The arguments reach `add_executor` unchanged. -/
theorem addCall_eq_iff {nodeName ipAddress : String} {port cores memory : Int} :
    ExecutorDB.addCall nodeName (cut ipAddress) port cores memory =
        some ⟨port, cores, memory, ipAddress, nodeName⟩ ↔
      nul ∉ ipAddress.toList ∧ (-2 ^ 15 ≤ cores ∧ cores < 2 ^ 15) ∧
        ExecutorDB.nodeNameLength ≤ nodeName.length := by
  rw [← cut_eq_self, ← toInt16_eq_self_iff, ExecutorDB.addCall]
  split
  · rename_i short
    exact iff_of_false (Option.some_ne_none _).symm
      fun accepted => absurd short (not_lt.mpr accepted.2.2)
  · rename_i long
    simp [not_lt.mp long, and_comm]

/-- A request to `/add` is validated before it is used and stored as it is: it is turned away and
the store is left alone, or the body describes a node, its data reach `add_executor`, and the
executor that is stored has them. -/
def Faithful (db : ExecutorDB) (nodeName : String) (parsed : Option Json) : Prop :=
  (∃ text, onRequest db (some nodeName) "/add" parsed = .ok ⟨.badRequest, text, db, none⟩) ∨
  ∃ members ipAddress port cores memory response,
    parsed = some (.object members) ∧ Describes members ipAddress port cores memory ∧
    onRequest db (some nodeName) "/add" parsed = .ok response ∧
    response.called = some ⟨port, cores, memory, ipAddress, nodeName⟩ ∧
    (response.code = .ok → Stored response.db ⟨port, cores, memory, ipAddress, nodeName⟩)

/-- The bodies and names for which the handler is right. -/
def Acceptable (nodeName : String) (parsed : Option Json) : Prop :=
  ∃ members, parsed = some (.object members) ∧
    ((∀ ipAddress port cores memory, ¬Passes members ipAddress port cores memory) ∨
      ∃ ipAddress port cores memory, Describes members ipAddress port cores memory ∧
        nul ∉ ipAddress.toList ∧ (-2 ^ 15 ≤ cores ∧ cores < 2 ^ 15) ∧
        ExecutorDB.nodeNameLength ≤ nodeName.length)

/-- The answer to a body that describes a node. -/
theorem onRequest_of_describes {ipAddress : String} {port cores memory : Int}
    (describes : Describes members ipAddress port cores memory)
    (wellFormed : malformedAdd (.object members) = .ok false) (db : ExecutorDB)
    (nodeName : String) :
    onRequest db (some nodeName) "/add" (some (.object members)) =
      .ok (store db nodeName (cut ipAddress) port cores memory) := by
  have used := add_of_passes describes.1 wellFormed db nodeName
  rw [getInt_of_isInt describes.2] at used
  exact used

/-- What passes is not turned away, so it has to be stored as it is. -/
theorem faithful_iff_of_passing (wellFormed : malformedAdd (.object members) = .ok false)
    (passing : ∃ ipAddress port cores memory, Passes members ipAddress port cores memory)
    (db : ExecutorDB) (nodeName : String) :
    Faithful db nodeName (some (.object members)) ↔
      Acceptable nodeName (some (.object members)) := by
  constructor
  · rintro (⟨text, answered⟩ | ⟨_, ipAddress, port, cores, memory, response, same, describes,
      answered, called, _⟩)
    · obtain ⟨ipAddress, port, cores, memory, passes⟩ := passing
      have used : onRequest db (some nodeName) "/add" (some (.object members)) = _ :=
        add_of_passes passes wellFormed db nodeName
      rw [answered] at used
      cases value : memory.getInt with
      | error failure =>
        rw [value] at used
        cases used
      | ok number =>
        rw [value] at used
        have response : _ = store db nodeName (cut ipAddress) port cores number :=
          Except.ok.inj used
        have code := store_code db nodeName (cut ipAddress) port cores number
        rw [← response] at code
        exact absurd rfl code
    · cases same
      have stored := onRequest_of_describes describes wellFormed db nodeName
      rw [answered] at stored
      rw [Except.ok.inj stored, store_called] at called
      exact ⟨members, rfl, Or.inr ⟨ipAddress, port, cores, memory, describes,
        addCall_eq_iff.mp called⟩⟩
  · rintro ⟨_, same, unfit | ⟨ipAddress, port, cores, memory, describes, accepted⟩⟩
    · cases same
      obtain ⟨ipAddress, port, cores, memory, passes⟩ := passing
      exact absurd passes (unfit ipAddress port cores memory)
    · cases same
      have called := (@addCall_eq_iff nodeName ipAddress port cores memory).mpr accepted
      refine Or.inr ⟨members, ipAddress, port, cores, memory, _, rfl, describes,
        onRequest_of_describes describes wellFormed db nodeName, ?_, fun success => ?_⟩
      · rw [store_called]
        exact called
      · exact store_stored success called

/-- The handler is right about exactly these requests: the body is an object, and if it has an
address, a port, a number of cores and something for the memory, then that is an integer, too,
the number of cores fits into 16 bits, there is no terminator in the address, and the name of the
node is long enough for the store. -/
theorem add_request_faithful_iff (db : ExecutorDB) (nodeName : String) (parsed : Option Json) :
    Faithful db nodeName parsed ↔ Acceptable nodeName parsed := by
  by_cases isObject : ∃ members, parsed = some (.object members)
  · obtain ⟨members, rfl⟩ := isObject
    rcases malformedAdd_object members with ⟨malformed, unfit⟩ | ⟨wellFormed, passing⟩
    · exact iff_of_true (Or.inl ⟨_, add_of_malformed malformed db nodeName⟩)
        ⟨members, rfl, Or.inl unfit⟩
    · exact faithful_iff_of_passing wellFormed passing db nodeName
  · have other : ∀ members, parsed.getD .null ≠ .object members := by
      intro members same
      cases parsed with
      | none => cases same
      | some document => exact isObject ⟨members, congrArg some same⟩
    have undefined : onRequest db (some nodeName) "/add" parsed = .error .undefined :=
      add_of_undefined (malformedAdd_undefined other) db nodeName
    refine iff_of_false ?_ fun acceptable => isObject (acceptable.imp fun _ => And.left)
    rintro (⟨text, answered⟩ | ⟨members, _, _, _, _, _, same, _⟩)
    · rw [undefined] at answered
      cases answered
    · exact isObject ⟨members, same⟩

/-- A node with 40000 cores is added with a negative number of them. A memory that is no number
passes the condition and is read as one, and a body that cannot be parsed is searched for
members. -/
theorem wide_cores_narrowed :
    let request := fun body => onRequest ExecutorDB.empty (some "abcdefghijklmnopqrstuvwxyz012345")
      "/add" body
    let node := fun cores memory => some (Json.object [("ip_address", .string "10.0.0.1"),
      ("port", .integer 8000), ("cores", .integer cores), ("memory", memory)])
    (request (node 40000 (.integer 1024))).toOption.bind HttpResponse.called =
        some ⟨8000, -25536, 1024, "10.0.0.1", "abcdefghijklmnopqrstuvwxyz012345"⟩ ∧
      request (node 4 (.string "1024")) = .error .undefined ∧
      request none = .error .undefined := by
  refine ⟨?_, rfl, rfl⟩
  decide

end HTTPHandler

end RFaaS
