/-
This file is about the name under which a node registers. `ExecutorDB::add`
takes names of at least 32 characters. The executor manager copies its name
into a field of 32 characters (`ResourceManagerConnection::connect`), so that
the message never holds more of it, nor a terminator. The resource manager reads
the field as a C string out of an array of slots
(`resource_manager::Manager::_handle_message`), and the name goes on into the
slot behind it.

A registration therefore matches the name that was added only if the next slot
happens to hold the rest of the name. For a name of 32 characters that is the
case while the next slot is empty, and a longer name is cut off.

Names are sequences of characters here, as in the rest of the development. A
`char` of the messages is one of those characters.
-/

import RFaaS.CString
import RFaaS.Joining

namespace RFaaS

open Executor

/-- The character that ends a C string. -/
def nul : Char := Char.ofNat 0

namespace NodeRegistration

/-- `NodeRegistration::NODE_NAME_LENGTH`. -/
def nodeNameLength : Nat := 32

/-- `MessageIDs::NODE_REGISTRATION` as the four bytes of `message_id`. -/
def messageId : List Char := [Char.ofNat 1, nul, nul, nul]

/-- The message that `ResourceManagerConnection::connect` sends. -/
def encode (nodeName : String) : List Char :=
  messageId ++ CString.strncpy nul nodeNameLength nodeName.toList

/-- A message of `MSG_SIZE` bytes is received in the slot `id` of a receive buffer. -/
def receive (memory : List Char) (id : Nat) (message : List Char) : List Char :=
  memory.take (id * msgSize) ++ message ++ memory.drop ((id + 1) * msgSize)

/-- The name that `_handle_message` passes to `register_executor` when the message in the slot
`id` is a registration. -/
def decode (memory : List Char) (id : Nat) : Option String :=
  let buf := memory.drop (id * msgSize)
  if buf.take 4 = messageId then (CString.read nul (buf.drop 4)).map String.ofList else none

/-- The name that arrives when the node `nodeName` registers through the slot `id`. -/
def arriving (memory : List Char) (id : Nat) (nodeName : String) : Option String :=
  decode (receive memory id (encode nodeName)) id

/-- Only what lies behind the slot matters. -/
theorem arriving_eq {memory : List Char} {id : Nat}
    (inside : id * msgSize ≤ memory.length) (nodeName : String) :
    arriving memory id nodeName =
      (CString.read nul (CString.strncpy nul nodeNameLength nodeName.toList ++
        memory.drop ((id + 1) * msgSize))).map String.ofList := by
  have front : (memory.take (id * msgSize)).length = id * msgSize :=
    List.length_take_of_le inside
  have slot : (receive memory id (encode nodeName)).drop (id * msgSize) =
      messageId ++ (CString.strncpy nul nodeNameLength nodeName.toList ++
        memory.drop ((id + 1) * msgSize)) := by
    rw [receive, encode, List.append_assoc, List.append_assoc,
      List.drop_append_of_le_length front.ge, List.drop_of_length_le front.le, List.nil_append]
  rw [arriving, decode, slot]
  exact if_pos rfl

/-- A name of at least 32 characters arrives unchanged exactly if no terminator is in it and the
rest of it lies behind the slot. -/
theorem arriving_iff {memory : List Char} {id : Nat}
    (inside : id * msgSize ≤ memory.length) {nodeName : String}
    (long : nodeNameLength ≤ nodeName.length) :
    arriving memory id nodeName = some nodeName ↔
      nul ∉ nodeName.toList ∧
        CString.read nul (memory.drop ((id + 1) * msgSize)) =
          some (nodeName.toList.drop nodeNameLength) := by
  rw [arriving_eq inside, ← CString.read_strncpy_iff long, Option.map_eq_some_iff]
  constructor
  · rintro ⟨text, found, rfl⟩
    rw [found, String.toList_ofList]
  · intro found
    exact ⟨_, found, String.ofList_toList⟩

end NodeRegistration

namespace ExecutorDB

/-- The registration that arrives as `decoded` carries the name of the node, and the executor
found under the queue pair is then the one found under that name. -/
def Matches (db : ExecutorDB) (connection : Connection) (nodeName : String)
    (decoded : Option String) : Prop :=
  decoded = some nodeName ∧ ∀ name ∈ decoded,
    ∃ ref, (db.joins connection name).executors.byName.lookup nodeName = some ref ∧
      (db.joins connection name).executors.byConn.lookup connection.qpNum = some ref

/-- A name that was added is known. -/
theorem addExecutor_named (executors : Executors) (data : ServerData) :
    ∃ ref, (executors.addExecutor data).2.byName.lookup data.node = some ref := by
  unfold Executors.addExecutor
  dsimp only
  split
  · exact ⟨_, AList.lookup_insert _⟩
  · rename_i existing found
    split <;> exact ⟨existing, found⟩

/-- What `add` accepts has at least 32 characters and is known afterwards. -/
theorem add_accepted {db : ExecutorDB} {nodeName ipAddress : String} {port cores memory : Int}
    (accepted : (db.add nodeName ipAddress port cores memory).1 = .ok) :
    nodeNameLength ≤ nodeName.length ∧
      ∃ ref, (db.add nodeName ipAddress port cores memory).2.executors.byName.lookup nodeName =
        some ref := by
  by_cases short : nodeName.length < nodeNameLength
  · rw [add, if_pos short] at accepted
    cases accepted
  · refine ⟨not_lt.mp short, ?_⟩
    rw [add_addNode, if_neg short, addNode_executors]
    exact addExecutor_named db.executors ⟨port, toInt16 cores, memory, ipAddress, nodeName⟩

theorem joins_matches {db : ExecutorDB} {nodeName : String} {named : ExecutorRef}
    (present : db.executors.byName.lookup nodeName = some named) (connection : Connection) :
    db.Matches connection nodeName (some nodeName) := by
  refine ⟨rfl, fun name same => ?_⟩
  cases same
  rw [joins_of_named present]
  exact ⟨named, present, AList.lookup_insert _⟩

/-- The registration of a node that was added is matched with it exactly if there is no terminator
in its name and the receive buffer holds the rest of the name, behind the 32 characters that are
sent, in the slots that follow. -/
theorem registration_matches_iff (db : ExecutorDB) (nodeName ipAddress : String)
    (port cores memory : Int) (accepted : (db.add nodeName ipAddress port cores memory).1 = .ok)
    (connection : Connection) (contents : List Char) (id : Nat)
    (inside : id * msgSize ≤ contents.length) :
    (db.add nodeName ipAddress port cores memory).2.Matches connection nodeName
        (NodeRegistration.arriving contents id nodeName) ↔
      nul ∉ nodeName.toList ∧
        CString.read nul (contents.drop ((id + 1) * msgSize)) =
          some (nodeName.toList.drop NodeRegistration.nodeNameLength) := by
  obtain ⟨long, named, present⟩ := add_accepted accepted
  rw [← NodeRegistration.arriving_iff inside long]
  constructor
  · exact And.left
  · intro exactly
    rw [exactly]
    exact joins_matches present connection

/-- A name of 32 characters, in a receive buffer that has not been used. -/
theorem full_name_matches :
    (empty.add "abcdefghijklmnopqrstuvwxyz012345" "10.0.0.1" 10000 4 1024).2.Matches ⟨0, 7⟩
      "abcdefghijklmnopqrstuvwxyz012345"
      (NodeRegistration.arriving (List.replicate 73 nul) 0 "abcdefghijklmnopqrstuvwxyz012345") :=
  (registration_matches_iff empty "abcdefghijklmnopqrstuvwxyz012345" "10.0.0.1" 10000 4 1024
    (by decide) ⟨0, 7⟩ (List.replicate 73 nul) 0 (by decide)).mpr (by decide)

/-- A name of 33 characters is accepted and loses its last one in the message, also when the
receive buffer has not been used: the node registers as another one, and the executor that was
added stays without a connection. A name of 32 characters gets one more when the next slot holds
a `LeaseDeallocation`, whose first byte is 3. -/
theorem long_name_cut_off :
    let added := empty.add "abcdefghijklmnopqrstuvwxyz0123456" "10.0.0.1" 10000 4 1024
    let joined := added.2.joins ⟨0, 7⟩ "abcdefghijklmnopqrstuvwxyz012345"
    added.1 = .ok ∧
      NodeRegistration.arriving (List.replicate 73 nul) 0 "abcdefghijklmnopqrstuvwxyz0123456" =
        some "abcdefghijklmnopqrstuvwxyz012345" ∧
      joined.executors.byName.lookup "abcdefghijklmnopqrstuvwxyz0123456" = some 0 ∧
      joined.executors.byConn.lookup 7 = some 1 ∧
      (joined.executors.objects 0).isInitialized = false ∧
      NodeRegistration.arriving
          (List.replicate 36 nul ++ Char.ofNat 3 :: List.replicate 35 nul) 0
          "abcdefghijklmnopqrstuvwxyz012345" =
        some (String.ofList ("abcdefghijklmnopqrstuvwxyz012345".toList ++ [Char.ofNat 3])) := by
  refine ⟨by decide, by decide, by decide, by decide, by decide, by decide⟩

end ExecutorDB

end RFaaS
