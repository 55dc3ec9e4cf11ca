import DistribKV.KV.Handlers
import DistribKV.Raft.Lifecycle

/-!
# The client interface

Requests and responses of `proto/kv.proto`, and the handlers of `kv/server.go`
around `submitOperation`: the operation a request stands for, and the response its
outcome becomes.  A request carries a key and a value and nothing that tells two
attempts of a client apart from two operations.
-/

namespace DistribKV.KV

structure GetRequest where
  key : String
  deriving DecidableEq, Repr

structure PutRequest where
  key : String
  value : String
  deriving DecidableEq, Repr

structure AppendRequest where
  key : String
  value : String
  deriving DecidableEq, Repr

structure GetResponse where
  success : Bool := false
  value : String := ""
  wrongLeader : Bool := false
  leaderId : Int := 0
  error : String := ""
  deriving DecidableEq, Repr

/-- The fields that the responses to the two writing requests have. -/
structure WriteResponse where
  success : Bool := false
  wrongLeader : Bool := false
  leaderId : Int := 0
  error : String := ""
  deriving DecidableEq, Repr

abbrev PutResponse := WriteResponse

abbrev AppendResponse := WriteResponse

/-! ## Operations -/

def GetRequest.op (req : GetRequest) : Op where
  kind := .get
  key := req.key
  value := ""
  clientId := 0
  sequenceId := 0

def PutRequest.op (req : PutRequest) : Op where
  kind := .put
  key := req.key
  value := req.value
  clientId := 0
  sequenceId := 0

def AppendRequest.op (req : AppendRequest) : Op where
  kind := .append
  key := req.key
  value := req.value
  clientId := 0
  sequenceId := 0

/-! ## Commands in the log -/

/-- The conversion `OpType(o.Type)`. -/
def OpKind.toProto : OpKind → Int
  | .get => 1
  | .put => 2
  | .append => 3
  | .unknown code => code

def Op.toProto (op : Op) : Command where
  op := op.kind.toProto
  key := op.key
  value := op.value
  clientId := op.clientId
  sequenceNum := op.sequenceId

/-- `encoding/json` as far as commands go into the log and come out of it. -/
structure CommandCodec extends Json where
  marshalCommand : Command → Except String Bytes
  commandRoundTrip : ∀ cmd data, marshalCommand cmd = .ok data →
    unmarshalCommand data = .ok cmd

def serializeCommand (codec : CommandCodec) (op : Op) : Except String Bytes :=
  codec.marshalCommand op.toProto

/-- An operation of one of the three kinds survives the log. -/
theorem deserializeCommand_serializeCommand {codec : CommandCodec} {op : Op} {data : Bytes}
    (kind : OpKind.ofProto op.kind.toProto = op.kind)
    (serialized : serializeCommand codec op = .ok data) :
    deserializeCommand codec.toJson data = .ok op := by
  rw [deserializeCommand, codec.commandRoundTrip _ _ serialized]
  simp only [opFromProto, Op.toProto, kind]

/-! ## Responses -/

/-- A redirection to the leader that the node names. -/
def wrongLeaderGet (r : Raft) : GetResponse where
  wrongLeader := true
  leaderId := int32 r.getLeaderId

def wrongLeaderWrite (r : Raft) : WriteResponse where
  wrongLeader := true
  leaderId := int32 r.getLeaderId

def wrongLeaderPut (r : Raft) : PutResponse := wrongLeaderWrite r

def wrongLeaderAppend (r : Raft) : AppendResponse := wrongLeaderWrite r

/-- The response to an error of `submitOperation`. -/
def errorGet (r : Raft) (err : String) : GetResponse :=
  if err = errNotLeader then wrongLeaderGet r else { success := false, error := err }

def errorWrite (r : Raft) (err : String) : WriteResponse :=
  if err = errNotLeader then wrongLeaderWrite r else { success := false, error := err }

def errorPut (r : Raft) (err : String) : PutResponse := errorWrite r err

def errorAppend (r : Raft) (err : String) : AppendResponse := errorWrite r err

/-- The response of `Get` to what `submitOperation` returned; a missing key is an
error of the result. -/
def getResponse (r : Raft) : Except String Result → GetResponse
  | .error err => errorGet r err
  | .ok result =>
      match result.err with
      | some err => { success := false, error := err }
      | none => { success := true, value := result.value }

/-- The response of a writing request, which does not look at the result. -/
def writeResponse (r : Raft) : Except String Result → WriteResponse
  | .error err => errorWrite r err
  | .ok _ => { success := true }

/-! ## Handlers

The node is read twice, without a lock in between: when the request arrives it is
`r`, when the response is made up it is `r'`. -/

section Handlers

variable (r r' : Raft) (submitOperation : Op → Except String Result)

def get (req : GetRequest) : GetResponse :=
  if r.isLeader then getResponse r' (submitOperation req.op) else wrongLeaderGet r'

def handleWrite (op : Op) : WriteResponse :=
  if r.isLeader then writeResponse r' (submitOperation op) else wrongLeaderWrite r'

def put (req : PutRequest) : PutResponse := handleWrite r r' submitOperation req.op

def append (req : AppendRequest) : AppendResponse := handleWrite r r' submitOperation req.op

end Handlers

end DistribKV.KV
