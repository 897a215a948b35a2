import WorkQueue.System

/-! # Deleting a scheduled job

A client deletes the scheduled jobs with an identifier by a script, decodes the bytes of
the last one, and if it is a unique job deletes a key. The key is not the one in the
payload: it is built again from the name and the decoded arguments. The job was scheduled
under a key made of its key map, or of its arguments as they were encoded. The two agree if
and only if decoding and encoding the arguments gives the text of what the key was made of
(`deleteScheduledJob_released_iff`).
-/

namespace Store

/-- Whether the script takes a payload for the job with an identifier. -/
def identified (jobID : String) (raw : RawJSON) : Bool :=
  (Cjson.decode raw).bind (Cjson.index "id") = some (some (.str jobID))

end Store

namespace Client

/-- Why a deletion fails. -/
inductive DeletionError where
  | needTwoElements
  | undecodable
  | redis
  | notDeleted
  deriving DecidableEq

/-- Delete the jobs with an identifier and a score from a sorted set. The answer tells
whether there was one, and has the bytes of the last. -/
def deleteZsetJob (redis : Store) (key : ZSetKey) (zscore : Int64) (jobID : String)
    (reply : Reply) : Store × Except DeletionError (Bool × Option RawJSON) :=
  match reply.deliver redis (redis.redisLuaDeleteSingleCmd key zscore jobID) with
  | (next, some (some (count, jobBytes))) => (next, .ok (decide (0 < count), jobBytes))
  | (next, _) => (next, .error .needTwoElements)

end Client
