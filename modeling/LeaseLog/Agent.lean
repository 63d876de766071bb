import LeaseLog.Config
import LeaseLog.Envelope

/-!
# Agent signatures

Every source records who committed it, as an envelope. A configured agent signs with its profile
and the number of the process that acts for it.
-/

namespace LeaseLog

open Decoder

/-- A process that acts for a configured system. -/
structure SystemAgent where
  system : String
  instanceName : Option String
  user : Option String
  processId : Nat
deriving DecidableEq, Repr

namespace SystemAgent

/-- The type that the header of a configured agent's signature names. -/
def dataType : DataType := .native "sourcelog.agent.system"

def toJson (agent : SystemAgent) : Json :=
  .object [("system", .string agent.system), ("instance", .ofOption .string agent.instanceName),
    ("user", .ofOption .string agent.user), ("process_id", .nat agent.processId)]

def decoder : Decoder SystemAgent :=
  (record [required "system" text, orNull "instance" text, orNull "user" text,
      required "process_id" (natBelow (Nat.pow 2 32))]).map
    fun (system, instanceName, user, processId, _) => ⟨system, instanceName, user, processId⟩

/-- The payload of a signature, with its members sorted by name. -/
def toPayload (agent : SystemAgent) : Json :=
  .object [("instance", .ofOption .string agent.instanceName), ("process_id", .nat agent.processId),
    ("system", .string agent.system), ("user", .ofOption .string agent.user)]

end SystemAgent

/-- How a repository signs: an envelope, or the reason why there is none. -/
abbrev Signature := Except EnvelopeError Envelope

/-- The signature of a profile. -/
def AgentProfile.sign (profile : AgentProfile) (processId : Nat) : Envelope :=
  ⟨SystemAgent.dataType,
    SystemAgent.toPayload ⟨profile.system, profile.instanceName, profile.user, processId⟩⟩

end LeaseLog
