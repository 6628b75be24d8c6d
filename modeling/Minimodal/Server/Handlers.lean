import Minimodal.Server.Threads

namespace Minimodal.Server

inductive WatchNext
  | poll (lastStatus : JobStatus)
  | wait (lastStatus : JobStatus)
  | drain (rec : JobRecord)
  | done
  deriving DecidableEq, Repr

inductive Handler
  | idle
  | refuse (status : Status)
  -- InvokeFunction
  | submit (req : InvokeFunctionRequest) (rec : JobRecord)
  | enqueue (req : InvokeFunctionRequest) (jobID : String) (pc : EnqueuePc)
  | recordInvocation (req : InvokeFunctionRequest) (jobID : String)
  | invoked (req : InvokeFunctionRequest) (jobID : String) (created : Bool)
  -- ReportTaskResult
  | putResult (req : ReportTaskResultRequest)
  | appendTail (req : ReportTaskResultRequest)
  | report (req : ReportTaskResultRequest)
  | notify (req : ReportTaskResultRequest) (pc : NotifyPc)
  | recordColdStart (req : ReportTaskResultRequest)
  | count (req : ReportTaskResultRequest)
  | acknowledge (req : ReportTaskResultRequest)
  -- GetJobStatus
  | loadStatus (jobID : String)
  | clockStatus (rec : JobRecord)
  | cacheStatus (rec : JobRecord) (now : Nat)
  | replyStatus (resp : JobStatusResponse)
  -- WatchJob
  | loadWatch (jobID : String)
  | subscribe (jobID : String) (lastStatus : JobStatus)
  | sendEvent (jobID : String) (ev : JobEvent) (evs : List JobEvent) (k : WatchNext)
  | poll (jobID : String) (lastStatus : JobStatus)
  | wait (jobID : String) (lastStatus : JobStatus)
  | drain (jobID : String) (rec : JobRecord)
  | unsubscribe (jobID : String)
  -- StreamTaskLogs
  | recvChunk
  | loadChunk (chunk : TaskLogChunk)
  | appendChunk (chunk : TaskLogChunk)
  deriving DecidableEq, Repr

namespace Handler

def invokeFunction (cfg : Config) (req : InvokeFunctionRequest) (uuid : String) (now : Nat) :
    Handler :=
  let total : Int := req.functionBytes.length + req.argsBytes.length
  if req.functionBytes.isEmpty then .refuse ⟨.invalidArgument, "function_bytes required"⟩
  else if cfg.maxPayloadBytes > 0 ∧ total > cfg.maxPayloadBytes then
    .refuse ⟨.invalidArgument, "payload too large: " ++ toString total ++ " bytes (max " ++
      toString cfg.maxPayloadBytes ++ ")"⟩
  else
    .submit req
      { id := uuid
        status := .pending
        functionName := req.functionName
        functionBytes := req.functionBytes
        argsBytes := req.argsBytes
        createdAt := some now }

def requireJobID (jobID : String) (h : Handler) : Handler :=
  if jobID = "" then .refuse ⟨.invalidArgument, "job_id required"⟩ else h

def reportTaskResult (req : ReportTaskResultRequest) : Handler :=
  requireJobID req.jobID (.putResult req)

def getJobStatus (jobID : String) : Handler := requireJobID jobID (.loadStatus jobID)

def watchJob (jobID : String) : Handler := requireJobID jobID (.loadWatch jobID)

def loadFailed (jobID : String) : Except Err (Option JobRecord) → Status
  | .error e => ⟨.internal, "load job: " ++ e.error⟩
  | .ok _ => ⟨.notFound, "job " ++ jobID ++ " not found"⟩

def sendAll (jobID : String) : List JobEvent → WatchNext → Handler
  | ev :: evs, k => .sendEvent jobID ev evs k
  | [], .poll st => .poll jobID st
  | [], .wait st => .wait jobID st
  | [], .drain rec => .drain jobID rec
  | [], .done => .unsubscribe jobID

def resultEntry (req : ReportTaskResultRequest) : ResultEntry where
  resultBytes := req.resultBytes
  errorMsg := req.error
  coldStartMs := req.coldStartMs
  executionMs := req.executionMs

def code (call : Nat) : Handler → Option (Code Handler)
  | .idle => none
  | .refuse status => some ⟨.reply (.refused call status), fun _ => .idle⟩
  | .submit req rec => some ⟨.submitWithIdempotency rec req.idempotencyKey, fun
    | .error e => .refuse (storeErrToStatus e "persist job")
    | .ok (jobID, true) => .enqueue req jobID .check
    | .ok (jobID, false) => .invoked req jobID false⟩
  | .enqueue req jobID pc => some (pc.code jobID (.enqueue req jobID) (.recordInvocation req jobID))
  | .recordInvocation req jobID => some ⟨.recordInvocation, fun _ => .invoked req jobID true⟩
  | .invoked req jobID created => some ⟨.reply (.invoked call req jobID created), fun _ => .idle⟩
  | .putResult req => some ⟨.putResult req.jobID (resultEntry req), fun _ => .appendTail req⟩
  | .appendTail req => some ⟨.append req.jobID req.tailLines, fun _ => .report req⟩
  | .report req => some ⟨.transition req.jobID (.report req), fun
    | (_, .error e) => .refuse (storeErrToStatus e "transition job")
    | (_, .ok _) => .notify req .load⟩
  | .notify req pc => some (pc.code req.jobID (.notify req) (.recordColdStart req))
  | .recordColdStart req => some ⟨.recordColdStart req.coldStartMs, fun _ => .count req⟩
  | .count req =>
    if req.success then some ⟨.recordCompleted, fun _ => .acknowledge req⟩
    else some ⟨.recordFailed, fun _ => .acknowledge req⟩
  | .acknowledge req => some ⟨.reply (.acknowledged call req), fun _ => .idle⟩
  | .loadStatus jobID => some ⟨.getJob jobID, fun
    | .ok (some rec) => .clockStatus rec
    | r => .refuse (loadFailed jobID r)⟩
  | .clockStatus rec => some ⟨.clock, fun now =>
    if rec.terminal then .cacheStatus rec now else .replyStatus (statusOfRecord rec now)⟩
  | .cacheStatus rec now => some ⟨.getResult rec.id, fun entry =>
    .replyStatus (jobStatusResponse rec now entry)⟩
  | .replyStatus resp => some ⟨.reply (.jobStatus call resp), fun _ => .idle⟩
  | .loadWatch jobID => some ⟨.getJob jobID, fun
    | .ok (some rec) => .subscribe jobID rec.status
    | r => .refuse (loadFailed jobID r)⟩
  | .subscribe jobID lastStatus => some ⟨.subscribe jobID call, fun (replay, terminal) =>
    sendAll jobID (.status jobID lastStatus :: replay ++ terminal.toList)
      (if terminal.isSome then .done else .poll lastStatus)⟩
  | .sendEvent jobID ev evs k => some ⟨.sendEvent call ev, fun sent =>
    if sent then sendAll jobID evs k else .unsubscribe jobID⟩
  | .poll jobID lastStatus => some ⟨.getJob jobID, fun
    | .ok (some rec) =>
      if rec.terminal then .drain jobID rec
      else if rec.status ≠ lastStatus then
        sendAll jobID [.status jobID rec.status] (.wait rec.status)
      else .wait jobID lastStatus
    | _ => .wait jobID lastStatus⟩
  | .wait jobID lastStatus => some ⟨.awaitEvent jobID call, fun
    | .done => .unsubscribe jobID
    | .event ev => sendAll jobID [ev] (if ev.isResult then .done else .poll lastStatus)
    | .tick => .poll jobID lastStatus⟩
  | .drain jobID rec => some ⟨.mailbox jobID call, fun
    | some ev => sendAll jobID [ev] (if ev.isResult then .done else .drain rec)
    | none => sendAll jobID [jobResultEvent rec] .done⟩
  | .unsubscribe jobID => some ⟨.unsubscribe jobID call, fun _ => .idle⟩
  | .recvChunk => some ⟨.recvChunk, fun
    | none => .idle
    | some chunk =>
      if chunk.jobID = "" ∨ chunk.lines.isEmpty then .recvChunk else .loadChunk chunk⟩
  | .loadChunk chunk => some ⟨.getJob chunk.jobID, fun
    | .ok (some rec) => if rec.terminal then .recvChunk else .appendChunk chunk
    | _ => .recvChunk⟩
  | .appendChunk chunk => some ⟨.append chunk.jobID chunk.lines, fun _ => .recvChunk⟩

end Handler

end Minimodal.Server
