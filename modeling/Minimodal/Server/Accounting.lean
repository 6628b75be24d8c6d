import Minimodal.Lib.Mailbox
import Minimodal.Server.Delivery

namespace Minimodal

namespace LogSub

def sendIn (cap : Nat) (ev : JobEvent) (sub : LogSub) : LogSub :=
  if sub.ch.length < cap then { sub with ch := sub.ch ++ [ev] }
  else { sub with dropped := sub.dropped + 1 }

def mailbox (sub : LogSub) : Lib.Mailbox JobEvent := ⟨sub.ch, sub.dropped⟩

theorem mailbox_sendIn (cap : Nat) (ev : JobEvent) (sub : LogSub) :
    (sub.sendIn cap ev).mailbox = sub.mailbox.offer cap ev := by
  unfold sendIn Lib.Mailbox.offer mailbox
  split <;> rfl

end LogSub

/-- The room in a channel of capacity `cap`: a subscriber that waits at an empty channel takes
one event even if the channel has no buffer. -/
def room (cap : Nat) (waiting : List Nat) (sub : Nat) : Nat :=
  if sub ∈ waiting then max cap 1 else cap

theorem room_subChannelBuffer (waiting : List Nat) :
    room subChannelBuffer waiting = fun _ => subChannelBuffer := by
  funext sub
  unfold room
  split <;> rfl

namespace JobLogState

def fanOutIn (room : Nat → Nat) (st : JobLogState) (ev : JobEvent) : JobLogState :=
  { st with subs := st.subs.map fun sub => (sub.1, sub.2.sendIn (room sub.1) ev) }

def appendLineIn (room : Nat → Nat) (maxLines : Nat) (jobID : String) (st : JobLogState)
    (line : LogLine) : JobLogState :=
  let line := LogHub.truncate line
  let st :=
    if st.lines.length ≥ maxLines then { st with dropped := st.dropped + 1 }
    else { st with lines := st.lines ++ [line] }
  st.fanOutIn room (.log jobID line)

def closeIn (room : Nat → Nat) (result : JobEvent) (st : JobLogState) : Option JobLogState :=
  if st.terminal.isSome then some st
  else
    let st := { st with terminal := some result }.fanOutIn room result
    if st.subs.isEmpty then none else some st

theorem appendLineIn_subChannelBuffer :
    appendLineIn (fun _ => subChannelBuffer) = LogHub.appendLine := rfl

theorem closeIn_subChannelBuffer : closeIn (fun _ => subChannelBuffer) = close := rfl

end JobLogState

/-- What happens to the entry of one job. A receive takes no lock, so it may fall between two
lines of one `Append`; the subscribers that wait at their channels are `waiting`. -/
inductive EntryOp
  | append (line : LogLine) (waiting : List Nat)
  | subscribe (sub : Nat)
  | receive (sub : Nat)
  | unsubscribe (sub : Nat)
  | finish (result : JobEvent) (waiting : List Nat)
  deriving DecidableEq, Repr

inductive EntryEvent
  | replayed (sub : Nat) (replay : List JobEvent) (terminal : Option JobEvent)
  | received (sub : Nat) (ev : JobEvent)
  | left (sub : Nat) (mailbox : LogSub)
  deriving DecidableEq, Repr

/-- The entry of a job in a hub that keeps `maxLines` lines and gives its watchers channels of
capacity `cap`; `none` once the entry is deleted. -/
def entry (cap maxLines : Nat) (jobID : String) :
    Lib.Machine (Option JobLogState) EntryOp EntryEvent where
  step
    | none, _ => none
    | some st, .append line waiting =>
      some (some (if st.terminal.isSome then st
        else st.appendLineIn (room cap waiting) maxLines jobID line), [])
    | some st, .subscribe sub =>
      some (some (st.attach sub), [.replayed sub (st.lines.map (.log jobID)) st.terminal])
    | some st, .receive sub =>
      match st.subs.lookup sub with
      | some ⟨ev :: _, _⟩ => some (some (st.advance sub), [.received sub ev])
      | _ => none
    | some st, .unsubscribe sub =>
      some (st.detach sub, ((st.subs.lookup sub).map (.left sub)).toList)
    | some st, .finish result waiting => some (st.closeIn (room cap waiting) result, [])

/-- What there is to know of one subscriber: the lines appended before it came, what its
`Subscribe` returned, the lines appended and the `Finish` event that fell into its time, what it
has received, and its mailbox when it left. -/
structure Watcher where
  before : List LogLine
  replay : List JobEvent
  since : List LogLine := []
  finish : Option JobEvent := none
  received : List JobEvent := []
  left : Option LogSub := none

def Watcher.due (jobID : String) (w : Watcher) : List JobEvent :=
  w.since.map (.log jobID) ++ w.finish.toList

/-- The history of an entry: the lines appended before `Finish`, as they are stored, and its
subscribers. -/
structure Account where
  lines : List LogLine := []
  finished : Bool := false
  watchers : Nat → Option Watcher := fun _ => none

namespace Account

def each (f : Watcher → Watcher) (x : Account) : Nat → Option Watcher :=
  fun sub => (x.watchers sub).map fun w => if w.left.isSome then w else f w

def modify (sub : Nat) (f : Watcher → Watcher) (x : Account) : Account :=
  { x with watchers := Function.update x.watchers sub ((x.watchers sub).map f) }

def observe (x : Account) (_ : Option JobLogState) (op : EntryOp) (es : List EntryEvent) :
    Account :=
  match op, es with
  | .append line _, _ =>
    if x.finished then x
    else
      { x with
        lines := x.lines ++ [LogHub.truncate line]
        watchers := x.each fun w => { w with since := w.since ++ [LogHub.truncate line] } }
  | .finish result _, _ =>
    if x.finished then x
    else
      { x with
        finished := true
        watchers := x.each fun w => { w with finish := some result } }
  | .subscribe sub, [.replayed _ replay _] =>
    { x with watchers := Function.update x.watchers sub (some { before := x.lines, replay }) }
  | .receive sub, [.received _ ev] =>
    x.modify sub fun w => { w with received := w.received ++ [ev] }
  | .unsubscribe sub, [.left _ box] => x.modify sub fun w => { w with left := some box }
  | _, _ => x

end Account

def accounted (cap maxLines : Nat) (jobID : String) :
    Lib.Machine (Option JobLogState × Account) EntryOp EntryEvent :=
  (entry cap maxLines jobID).record Account.observe

def fresh (y : Option JobLogState × Account) : EntryOp → Prop
  | .subscribe sub => y.2.watchers sub = none
  | _ => True

def Watcher.box (st : Option JobLogState) (sub : Nat) (w : Watcher) : LogSub :=
  w.left.getD ((st.bind fun st => st.subs.lookup sub).getD {})

/-- What has been delivered to a subscriber: received or still in its mailbox. -/
def delivered (y : Option JobLogState × Account) (sub : Nat) : List JobEvent :=
  match y.2.watchers sub with
  | none => []
  | some w => w.received ++ (w.box y.1 sub).ch

structure Posted (jobID : String) (s : Option JobLogState) (x : Account) : Prop where
  attached : ∀ c w, x.watchers c = some w → w.left = none →
    ∃ st box, s = some st ∧ st.subs.lookup c = some box
  known : ∀ st c box, s = some st → st.subs.lookup c = some box →
    ∃ w, x.watchers c = some w ∧ w.left = none
  ledger : ∀ c w, x.watchers c = some w →
    Lib.Mailbox.Ledger (w.due jobID) w.received (w.box s c).mailbox

/-- Where the time of a subscriber lies among the lines: it begins where the replay ends. -/
structure Placed (maxLines : Nat) (jobID : String) (x : Account) (w : Watcher) : Prop where
  replay : w.replay = (w.before.take maxLines).map (.log jobID)
  place : w.before ++ w.since <+: x.lines
  current : w.left = none → x.finished = false → w.before ++ w.since = x.lines
  open_ : x.finished = false → w.finish = none

structure Buffers (maxLines : Nat) (jobID : String) (s : Option JobLogState) (x : Account) :
    Prop where
  lines : ∀ st, s = some st → st.lines = x.lines.take maxLines ∧
    st.dropped = x.lines.length - maxLines
  terminal : ∀ st, s = some st → st.terminal.isSome = x.finished
  placed : ∀ c w, x.watchers c = some w → Placed maxLines jobID x w

namespace JobLogState

variable {st : JobLogState} {c : Nat} {j : String}

theorem lookup_fanOutIn (room : Nat → Nat) (ev : JobEvent) :
    (st.fanOutIn room ev).subs.lookup c = (st.subs.lookup c).map (LogSub.sendIn (room c) ev) :=
  Lib.lookup_map_key (fun sub => LogSub.sendIn (room sub) ev) st.subs

theorem lookup_appendLineIn (room : Nat → Nat) (maxLines : Nat) (line : LogLine) :
    (st.appendLineIn room maxLines j line).subs.lookup c =
      (st.subs.lookup c).map (LogSub.sendIn (room c) (.log j (LogHub.truncate line))) := by
  unfold appendLineIn
  rw [lookup_fanOutIn]
  split <;> rfl

theorem terminal_appendLineIn (room : Nat → Nat) (maxLines : Nat) (line : LogLine) :
    (st.appendLineIn room maxLines j line).terminal = st.terminal := by
  unfold appendLineIn
  simp only [fanOutIn]
  split <;> rfl

theorem appendLineIn_lines {room : Nat → Nat} {maxLines : Nat} {line : LogLine}
    {lines : List LogLine}
    (hlines : st.lines = lines.take maxLines) (hdropped : st.dropped = lines.length - maxLines) :
    (st.appendLineIn room maxLines j line).lines =
        (lines ++ [LogHub.truncate line]).take maxLines ∧
      (st.appendLineIn room maxLines j line).dropped =
        (lines ++ [LogHub.truncate line]).length - maxLines := by
  have hlen : st.lines.length = min maxLines lines.length := by rw [hlines, List.length_take]
  unfold appendLineIn
  simp only [fanOutIn, List.length_append, List.length_singleton]
  split
  · rename_i hfull
    refine ⟨?_, by simp only; omega⟩
    simp only [hlines]
    rw [List.take_append_of_le_length (by omega)]
  · rename_i hroom
    refine ⟨?_, by simp only; omega⟩
    simp only [hlines]
    rw [List.take_of_length_le (by omega), List.take_of_length_le (by simp; omega)]

end JobLogState

namespace LogHub

variable {h : LogHub} {j : String} {sub : Nat} {st : JobLogState}

theorem entry_append (waiting : List Nat) {lines : List LogLine} (hlines : lines ≠ []) :
    (entry subChannelBuffer h.maxLines j).Run Lib.Machine.Always (some (h.get j))
      (lines.map (.append · waiting)) [] (h.append j lines).jobs[j]? := by
  have hmany : ∀ st, (entry subChannelBuffer h.maxLines j).Run Lib.Machine.Always (some st)
      (lines.map (.append · waiting)) [] (some (st.take h.maxLines j lines)) := by
    clear hlines
    induction lines with
    | nil =>
      intro st
      have htake : st.take h.maxLines j [] = st := by simp [JobLogState.take]
      rw [htake]
      exact .refl
    | cons line lines ih =>
      intro st
      refine .cons trivial (e := []) rfl ?_
      have hrest : st.take h.maxLines j (line :: lines) =
          (if st.terminal.isSome then st
            else st.appendLineIn (room subChannelBuffer waiting) h.maxLines j line).take
              h.maxLines j lines := by
        have hline := JobLogState.appendLine_terminal h.maxLines j st line
        rw [room_subChannelBuffer, JobLogState.appendLineIn_subChannelBuffer]
        unfold JobLogState.take
        cases hterm : st.terminal.isSome with
        | true => simp [hterm]
        | false => simp [hterm, hline]
      rw [hrest]
      exact ih _
  rw [jobs_append, if_pos ⟨rfl, hlines⟩]
  exact hmany (h.get j)

theorem entry_subscribe :
    (entry subChannelBuffer h.maxLines j).step (some (h.get j)) (.subscribe sub) =
      some ((h.subscribe j sub).1.jobs[j]?,
        [.replayed sub (h.subscribe j sub).2.1 (h.subscribe j sub).2.2]) := by
  rw [jobs_subscribe, if_pos rfl]
  rfl

theorem entry_receive {h' : LogHub} {ev : JobEvent} (hr : h.receive j sub = (h', some ev)) :
    (entry subChannelBuffer h.maxLines j).step (some (h.get j)) (.receive sub) =
      some (h'.jobs[j]?, [.received sub ev]) := by
  obtain ⟨⟨rest, dropped, hbox⟩, hjobs⟩ := receive_some hr
  rw [hjobs, if_pos rfl]
  simp only [entry, hbox]

theorem entry_unsubscribe (hst : h.jobs[j]? = some st) :
    (entry subChannelBuffer h.maxLines j).step (some st) (.unsubscribe sub) =
      some ((h.unsubscribe j sub).jobs[j]?, ((st.subs.lookup sub).map (.left sub)).toList) := by
  rw [jobs_unsubscribe, if_pos rfl, hst]
  rfl

theorem entry_finish (waiting : List Nat) (hst : h.jobs[j]? = some st) (result : JobEvent) :
    (entry subChannelBuffer h.maxLines j).step (some st) (.finish result waiting) =
      some ((h.finish j result).jobs[j]?, []) := by
  rw [jobs_finish, if_pos rfl, hst, Option.bind_some, ← JobLogState.closeIn_subChannelBuffer,
    ← room_subChannelBuffer waiting]
  rfl

end LogHub

section Accounts

variable {cap maxLines : Nat} {space : Nat → Nat} {j : String} {s s' : Option JobLogState} {x : Account}
  {st : JobLogState} {es : List EntryEvent}

theorem Watcher.box_attached {c : Nat} {w : Watcher} {box : LogSub} (hw : w.left = none)
    (hbox : st.subs.lookup c = some box) : w.box (some st) c = box := by
  simp [Watcher.box, hw, hbox]

theorem Watcher.box_left {c : Nat} {w : Watcher} {box : LogSub} (hw : w.left = some box) :
    w.box s c = box := by
  simp [Watcher.box, hw]

theorem Account.each_attached {f : Watcher → Watcher} {c : Nat} {w : Watcher}
    (hw : x.watchers c = some w) (hleft : w.left = none) : x.each f c = some (f w) := by
  simp [Account.each, hw, hleft]

theorem Account.each_eq {f : Watcher → Watcher} {c : Nat} {w : Watcher}
    (h : x.each f c = some w) :
    ∃ v, x.watchers c = some v ∧ (v.left.isSome = true ∧ w = v ∨ v.left = none ∧ w = f v) := by
  obtain ⟨v, hv, rfl⟩ := Option.map_eq_some_iff.mp h
  refine ⟨v, hv, ?_⟩
  cases hleft : v.left with
  | none => exact .inr ⟨rfl, by simp⟩
  | some box => exact .inl ⟨rfl, by simp⟩

theorem Account.modify_self {f : Watcher → Watcher} {c : Nat} {w : Watcher}
    (hw : x.watchers c = some w) : (x.modify c f).watchers c = some (f w) := by
  simp [Account.modify, hw]

theorem Account.modify_other {f : Watcher → Watcher} {c d : Nat} (hd : d ≠ c) :
    (x.modify c f).watchers d = x.watchers d := by
  simp [Account.modify, hd]

namespace Posted

variable {f : Watcher → Watcher} {x' : Account} {st' : JobLogState} {c : Nat}

theorem start (j : String) : Posted j (some {}) {} where
  attached c w hw := by simp at hw
  known st c box hst hbox := by
    cases hst
    simp at hbox
  ledger c w hw := by simp at hw

theorem deliver (h : Posted j (some st) x) {ev : JobEvent}
    (hsubs : ∀ c, st'.subs.lookup c = (st.subs.lookup c).map (LogSub.sendIn (space c) ev))
    (hx : x'.watchers = x.each f) (hleft : ∀ w, (f w).left = w.left)
    (hreceived : ∀ w, (f w).received = w.received)
    (hdue : ∀ c w, x.watchers c = some w → (f w).due j = w.due j ++ [ev]) :
    Posted j (some st') x' where
  attached c w hw hstay := by
    rw [hx] at hw
    obtain ⟨v, hv, ⟨hgone, rfl⟩ | ⟨hv', rfl⟩⟩ := Account.each_eq hw
    · simp [hstay] at hgone
    · obtain ⟨_, box, hst, hbox⟩ := h.attached c v hv hv'
      cases hst
      exact ⟨_, _, rfl, by rw [hsubs, hbox]; rfl⟩
  known _ c box hst hbox := by
    cases hst
    rw [hsubs, Option.map_eq_some_iff] at hbox
    obtain ⟨old, hold, -⟩ := hbox
    obtain ⟨w, hw, hstay⟩ := h.known st c old rfl hold
    exact ⟨f w, by rw [hx, Account.each_attached hw hstay], (hleft w).trans hstay⟩
  ledger c w hw := by
    rw [hx] at hw
    obtain ⟨v, hv, ⟨hgone, rfl⟩ | ⟨hstay, rfl⟩⟩ := Account.each_eq hw
    · obtain ⟨box, hbox⟩ := Option.isSome_iff_exists.mp hgone
      have hold := h.ledger c w hv
      rw [Watcher.box_left hbox] at hold ⊢
      exact hold
    · obtain ⟨_, box, hst, hbox⟩ := h.attached c v hv hstay
      cases hst
      have hold := h.ledger c v hv
      have hnew := hsubs c
      rw [Watcher.box_attached hstay hbox] at hold
      rw [hbox, Option.map_some] at hnew
      rw [hdue c v hv, hreceived, Watcher.box_attached ((hleft v).trans hstay) hnew,
        LogSub.mailbox_sendIn]
      exact hold.offer _ ev

theorem turn (h : Posted j (some st) x) {w : Watcher}
    (hsubs : ∀ d, d ≠ c → st'.subs.lookup d = st.subs.lookup d)
    (hx : ∀ d, d ≠ c → x'.watchers d = x.watchers d) (hw : x'.watchers c = some w)
    (hstay : w.left = none ↔ ∃ box, st'.subs.lookup c = some box)
    (hledger : Lib.Mailbox.Ledger (w.due j) w.received (w.box (some st') c).mailbox) :
    Posted j (some st') x' where
  attached d v hv hleft := by
    by_cases hd : d = c
    · subst hd
      cases hw.symm.trans hv
      obtain ⟨box, hbox⟩ := hstay.mp hleft
      exact ⟨st', box, rfl, hbox⟩
    · rw [hx d hd] at hv
      obtain ⟨_, box, hst, hbox⟩ := h.attached d v hv hleft
      cases hst
      exact ⟨st', box, rfl, (hsubs d hd).trans hbox⟩
  known _ d box hst hbox := by
    cases hst
    by_cases hd : d = c
    · subst hd
      exact ⟨w, hw, hstay.mpr ⟨box, hbox⟩⟩
    · rw [hsubs d hd] at hbox
      obtain ⟨v, hv, hleft⟩ := h.known st d box rfl hbox
      exact ⟨v, (hx d hd).trans hv, hleft⟩
  ledger d v hv := by
    by_cases hd : d = c
    · subst hd
      cases hw.symm.trans hv
      exact hledger
    · rw [hx d hd] at hv
      have hbox : v.box (some st') d = v.box (some st) d := by
        simp only [Watcher.box, Option.bind_some, hsubs d hd]
      rw [hbox]
      exact h.ledger d v hv

theorem subscribe (h : Posted j (some st) x) (before : List LogLine) (replay : List JobEvent) :
    Posted j (some (st.attach c))
      { x with watchers := Function.update x.watchers c (some { before, replay }) } := by
  refine h.turn (fun d hd => JobLogState.lookup_attach hd)
    (fun d hd => Function.update_of_ne hd _ _) (Function.update_self ..)
    ⟨fun _ => ⟨{}, JobLogState.lookup_attach_self⟩, fun _ => rfl⟩ ?_
  rw [Watcher.box_attached rfl JobLogState.lookup_attach_self]
  exact .empty

theorem receive (h : Posted j (some st) x) {ev : JobEvent} {rest : List JobEvent} {dropped : Nat}
    (hbox : st.subs.lookup c = some ⟨ev :: rest, dropped⟩) :
    Posted j (some (st.advance c))
      (x.modify c fun w => { w with received := w.received ++ [ev] }) := by
  obtain ⟨w, hw, hleft⟩ := h.known st c _ rfl hbox
  have hnew := JobLogState.advance_self hbox
  have hold := h.ledger c w hw
  rw [Watcher.box_attached hleft hbox] at hold
  refine h.turn (fun d hd => JobLogState.advance_other hd) (fun d hd => Account.modify_other hd)
    (Account.modify_self hw) ⟨fun _ => ⟨_, hnew⟩, fun _ => hleft⟩ ?_
  rw [Watcher.box_attached (by exact hleft) hnew]
  exact hold.receive

theorem leave (h : Posted j (some st) x) {box : LogSub} (hbox : st.subs.lookup c = some box) :
    Posted j (some { st with subs := st.subs.filter fun y => y.1 != c })
      (x.modify c fun w => { w with left := some box }) := by
  obtain ⟨w, hw, hleft⟩ := h.known st c _ rfl hbox
  have hold := h.ledger c w hw
  rw [Watcher.box_attached hleft hbox] at hold
  refine h.turn (fun d hd => Lib.lookup_filter hd _) (fun d hd => Account.modify_other hd)
    (Account.modify_self hw) ?_ ?_
  · simp [Lib.lookup_filter_self]
  · rw [Watcher.box_left rfl]
    exact hold

theorem congr (h : Posted j (some st) x) (hsubs : ∀ d, st'.subs.lookup d = st.subs.lookup d) :
    Posted j (some st') x where
  attached d w hw hleft := by
    obtain ⟨_, box, hst, hbox⟩ := h.attached d w hw hleft
    cases hst
    exact ⟨st', box, rfl, (hsubs d).trans hbox⟩
  known _ d box hst hbox := by
    cases hst
    exact h.known st d box rfl ((hsubs d).symm.trans hbox)
  ledger d w hw := by
    have hbox : w.box (some st') d = w.box (some st) d := by
      simp only [Watcher.box, Option.bind_some, hsubs d]
    rw [hbox]
    exact h.ledger d w hw

theorem gone (h : Posted j (some st) x) (hempty : st.subs.isEmpty = true) : Posted j none x := by
  have hleft : ∀ c w, x.watchers c = some w → ∃ box, w.left = some box := by
    intro c w hw
    cases hleft : w.left with
    | some box => exact ⟨box, rfl⟩
    | none =>
      obtain ⟨_, box, hst, hbox⟩ := h.attached c w hw hleft
      cases hst
      simp [List.isEmpty_iff.mp hempty] at hbox
  constructor
  · intro c w hw hstay
    obtain ⟨box, hbox⟩ := hleft c w hw
    rw [hstay] at hbox
    cases hbox
  · intro st' c box hst
    cases hst
  · intro c w hw
    obtain ⟨box, hbox⟩ := hleft c w hw
    have hold := h.ledger c w hw
    rw [Watcher.box_left hbox] at hold ⊢
    exact hold

end Posted

namespace Buffers

variable {c : Nat}

theorem start (maxLines : Nat) (j : String) : Buffers maxLines j (some {}) {} where
  lines st hst := by
    cases hst
    exact ⟨by simp, by simp⟩
  terminal st hst := by
    cases hst
    rfl
  placed c w hw := by simp at hw

theorem append (h : Buffers maxLines j (some st) x) (hopen : x.finished = false)
    (line : LogLine) :
    Buffers maxLines j (some (st.appendLineIn space maxLines j line))
      { x with
        lines := x.lines ++ [LogHub.truncate line]
        watchers := x.each fun w => { w with since := w.since ++ [LogHub.truncate line] } } where
  lines _ hst := by
    cases hst
    obtain ⟨hlines, hdropped⟩ := h.lines st rfl
    exact JobLogState.appendLineIn_lines hlines hdropped
  terminal _ hst := by
    cases hst
    rw [JobLogState.terminal_appendLineIn]
    exact h.terminal st rfl
  placed c w hw := by
    obtain ⟨v, hv, ⟨hgone, rfl⟩ | ⟨hstay, rfl⟩⟩ := Account.each_eq hw
    · have hold := h.placed c w hv
      refine ⟨hold.replay, hold.place.trans (List.prefix_append _ _), ?_, hold.open_⟩
      intro hleft
      simp [hleft] at hgone
    · have hold := h.placed c v hv
      have hlines : v.before ++ (v.since ++ [LogHub.truncate line]) =
          x.lines ++ [LogHub.truncate line] := by
        rw [← List.append_assoc, hold.current hstay hopen]
      exact ⟨hold.replay, hlines ▸ List.prefix_rfl, fun _ _ => hlines, hold.open_⟩

theorem finish (h : Buffers maxLines j (some st) x) (result : JobEvent)
    (subs : List (Nat × LogSub)) :
    Buffers maxLines j (some { st with terminal := some result, subs })
      { x with
        finished := true
        watchers := x.each fun w => { w with finish := some result } } where
  lines _ hst := by
    cases hst
    exact h.lines st rfl
  terminal _ hst := by
    cases hst
    rfl
  placed c w hw := by
    obtain ⟨v, hv, ⟨-, rfl⟩ | ⟨-, rfl⟩⟩ := Account.each_eq hw
    · have hold := h.placed c w hv
      exact ⟨hold.replay, hold.place, nofun, nofun⟩
    · have hold := h.placed c v hv
      exact ⟨hold.replay, hold.place, nofun, nofun⟩

theorem subscribe (h : Buffers maxLines j (some st) x) :
    Buffers maxLines j (some (st.attach c))
      { x with
        watchers := Function.update x.watchers c
          (some { before := x.lines, replay := st.lines.map (.log j) }) } where
  lines _ hst := by
    cases hst
    exact h.lines st rfl
  terminal _ hst := by
    cases hst
    exact h.terminal st rfl
  placed d w hw := by
    by_cases hd : d = c
    · subst hd
      simp only [Function.update_self, Option.some.injEq] at hw
      subst hw
      exact ⟨by rw [(h.lines st rfl).1], by simp, fun _ _ => by simp, fun _ => rfl⟩
    · have hold := h.placed d w ((Function.update_of_ne hd _ _).symm.trans hw)
      exact ⟨hold.replay, hold.place, hold.current, hold.open_⟩

theorem congr (h : Buffers maxLines j (some st) x) (subs : List (Nat × LogSub)) :
    Buffers maxLines j (some { st with subs }) x where
  lines _ hst := by
    cases hst
    exact h.lines st rfl
  terminal _ hst := by
    cases hst
    exact h.terminal st rfl
  placed := h.placed

theorem gone (h : Buffers maxLines j s x) : Buffers maxLines j none x where
  lines _ hst := by cases hst
  terminal _ hst := by cases hst
  placed := h.placed

theorem modify (h : Buffers maxLines j s x) {f : Watcher → Watcher}
    (hplaced : ∀ w, Placed maxLines j x w → Placed maxLines j x (f w)) :
    Buffers maxLines j s (x.modify c f) where
  lines := h.lines
  terminal := h.terminal
  placed d w hw := by
    by_cases hd : d = c
    · subst hd
      cases hv : x.watchers d with
      | none => simp [Account.modify, hv] at hw
      | some v =>
        rw [Account.modify_self hv, Option.some.injEq] at hw
        subst hw
        have hnew := hplaced v (h.placed d v hv)
        exact ⟨hnew.replay, hnew.place, hnew.current, hnew.open_⟩
    · rw [Account.modify_other hd] at hw
      have hold := h.placed d w hw
      exact ⟨hold.replay, hold.place, hold.current, hold.open_⟩

end Buffers

theorem JobLogState.advance_subs (st : JobLogState) (c : Nat) : ∃ subs, st.advance c = { st with subs } := by
  unfold JobLogState.advance
  split
  · exact ⟨_, rfl⟩
  · exact ⟨st.subs, rfl⟩

def Balanced (maxLines : Nat) (jobID : String) (y : Option JobLogState × Account) : Prop :=
  Posted jobID y.1 y.2 ∧ Buffers maxLines jobID y.1 y.2

theorem balanced_append (hb : Balanced maxLines j (some st, x)) (line : LogLine)
    (waiting : List Nat) :
    Balanced maxLines j
      (some (if st.terminal.isSome then st
          else st.appendLineIn (room cap waiting) maxLines j line),
        x.observe (some st) (.append line waiting) es) := by
  obtain ⟨hp, hl⟩ := hb
  have hfin := hl.terminal st rfl
  cases hopen : x.finished with
  | true =>
    rw [hopen] at hfin
    simp only [Account.observe, hopen, hfin, if_true]
    exact ⟨hp, hl⟩
  | false =>
    rw [hopen] at hfin
    simp only [Account.observe, hopen, hfin, Bool.false_eq_true, if_false]
    refine ⟨hp.deliver (fun c => JobLogState.lookup_appendLineIn _ maxLines line) rfl
      (fun _ => rfl) (fun _ => rfl) ?_, ?_⟩
    · intro c w hw
      simp [Watcher.due, (hl.placed c w hw).open_ hopen]
    · have hnew : Buffers maxLines j
          (some (st.appendLineIn (room cap waiting) maxLines j line)) _ := hl.append hopen line
      rw [hopen] at hnew
      exact hnew

theorem balanced_subscribe (hb : Balanced maxLines j (some st, x)) (c : Nat) :
    Balanced maxLines j (some (st.attach c),
      { x with
        watchers := Function.update x.watchers c
          (some { before := x.lines, replay := st.lines.map (.log j) }) }) :=
  ⟨hb.1.subscribe _ _, hb.2.subscribe⟩

theorem balanced_receive (hb : Balanced maxLines j (some st, x)) {c : Nat} {ev : JobEvent}
    {rest : List JobEvent} {dropped : Nat}
    (hbox : st.subs.lookup c = some ⟨ev :: rest, dropped⟩) :
    Balanced maxLines j (some (st.advance c),
      x.modify c fun w => { w with received := w.received ++ [ev] }) := by
  refine ⟨hb.1.receive hbox, ?_⟩
  obtain ⟨subs, hsubs⟩ := JobLogState.advance_subs st c
  rw [hsubs]
  exact (hb.2.congr subs).modify fun w hw => ⟨hw.replay, hw.place, hw.current, hw.open_⟩

theorem Balanced.gone (hb : Balanced maxLines j (some st, x)) (hempty : st.subs.isEmpty = true) :
    Balanced maxLines j (none, x) :=
  ⟨hb.1.gone hempty, hb.2.gone⟩

theorem balanced_unsubscribe (hb : Balanced maxLines j (some st, x)) (c : Nat) :
    Balanced maxLines j (st.detach c,
      x.observe (some st) (.unsubscribe c) ((st.subs.lookup c).map (.left c)).toList) := by
  have hnew : Balanced maxLines j
      (some { st with subs := st.subs.filter fun y => y.1 != c },
        x.observe (some st) (.unsubscribe c) ((st.subs.lookup c).map (.left c)).toList) := by
    cases hbox : st.subs.lookup c with
    | some box =>
      refine ⟨hb.1.leave hbox, (hb.2.congr _).modify fun w hw => ?_⟩
      exact ⟨hw.replay, hw.place, nofun, hw.open_⟩
    | none =>
      refine ⟨hb.1.congr fun d => ?_, hb.2.congr _⟩
      by_cases hd : d = c
      · subst hd
        rw [hbox]
        exact Lib.lookup_filter_self _
      · exact Lib.lookup_filter hd _
  unfold JobLogState.detach
  simp only
  split
  · rename_i hempty
    exact hnew.gone (Bool.and_eq_true_iff.mp hempty).2
  · exact hnew

theorem balanced_finish (hb : Balanced maxLines j (some st, x)) (result : JobEvent)
    (waiting : List Nat) :
    Balanced maxLines j
      (st.closeIn (room cap waiting) result, x.observe (some st) (.finish result waiting) es) := by
  obtain ⟨hp, hl⟩ := hb
  have hfin := hl.terminal st rfl
  unfold JobLogState.closeIn
  cases hopen : x.finished with
  | true =>
    rw [hopen] at hfin
    simp only [Account.observe, hopen, hfin, if_true]
    exact ⟨hp, hl⟩
  | false =>
    rw [hopen] at hfin
    simp only [Account.observe, hopen, hfin, Bool.false_eq_true, if_false]
    have hnew : Balanced maxLines j
        (some (JobLogState.fanOutIn (room cap waiting) { st with terminal := some result } result),
          { x with
            finished := true
            watchers := x.each fun w => { w with finish := some result } }) := by
      refine ⟨hp.deliver (fun c => JobLogState.lookup_fanOutIn _ result) rfl (fun _ => rfl)
        (fun _ => rfl) ?_, hl.finish result _⟩
      intro c w hw
      simp [Watcher.due, (hl.placed c w hw).open_ hopen]
    split
    · rename_i hempty
      exact hnew.gone hempty
    · exact hnew

theorem balanced_step {y y' : Option JobLogState × Account} {op : EntryOp}
    (hb : Balanced maxLines j y) (hstep : (accounted cap maxLines j).step y op = some (y', es)) :
    Balanced maxLines j y' := by
  obtain ⟨s, x⟩ := y
  obtain ⟨s', x'⟩ := y'
  obtain ⟨hst, hx⟩ := Lib.Machine.record_step.mp hstep
  simp only at hst hx
  subst hx
  cases s with
  | none => cases hst
  | some st =>
    cases op with
    | append line waiting =>
      cases hst
      exact balanced_append hb line waiting
    | subscribe c =>
      cases hst
      exact balanced_subscribe hb c
    | receive c =>
      simp only [entry] at hst
      split at hst
      · rename_i ev rest dropped hbox
        cases hst
        exact balanced_receive hb hbox
      · cases hst
    | unsubscribe c =>
      cases hst
      exact balanced_unsubscribe hb c
    | finish result waiting =>
      cases hst
      exact balanced_finish hb result waiting

theorem delivered_of_watcher {c : Nat} {w : Watcher} (hw : x.watchers c = some w) :
    delivered (s, x) c = w.received ++ (w.box s c).ch := by
  simp [delivered, hw]

theorem Posted.box_detach (h : Posted j (some st) x) {c d : Nat} (hd : d ≠ c) {w : Watcher}
    (hw : x.watchers d = some w) : w.box (st.detach c) d = w.box (some st) d := by
  cases hleft : w.left with
  | some box => rw [Watcher.box_left hleft, Watcher.box_left hleft]
  | none =>
    obtain ⟨_, box, hst, hbox⟩ := h.attached d w hw hleft
    cases hst
    obtain ⟨st', hdetach, -, hbox'⟩ := JobLogState.detach_other hd hbox
    rw [hdetach, Watcher.box_attached hleft hbox, Watcher.box_attached hleft hbox']

theorem delivered_unsubscribe (h : Posted j (some st) x) (c d : Nat) :
    delivered (st.detach c,
        x.observe (some st) (.unsubscribe c) ((st.subs.lookup c).map (.left c)).toList) d =
      delivered (some st, x) d := by
  cases hbox : st.subs.lookup c with
  | some box =>
    obtain ⟨v, hv, hleft⟩ := h.known st c box rfl hbox
    simp only [Account.observe, Option.map_some, Option.toList_some]
    by_cases hd : d = c
    · subst hd
      rw [delivered_of_watcher (Account.modify_self hv), delivered_of_watcher hv,
        Watcher.box_left rfl, Watcher.box_attached hleft hbox]
    · cases hw : x.watchers d with
      | none => simp [delivered, Account.modify_other hd, hw]
      | some w =>
        rw [delivered_of_watcher ((Account.modify_other hd).trans hw), delivered_of_watcher hw,
          h.box_detach hd hw]
  | none =>
    simp only [Account.observe, Option.map_none, Option.toList_none]
    cases hw : x.watchers d with
    | none => simp [delivered, hw]
    | some w =>
      rw [delivered_of_watcher hw, delivered_of_watcher hw]
      by_cases hd : d = c
      · subst hd
        -- a subscriber without a mailbox has left before
        cases hleft : w.left with
        | some box => rw [Watcher.box_left hleft, Watcher.box_left hleft]
        | none =>
          obtain ⟨_, box, hst, hlook⟩ := h.attached d w hw hleft
          cases hst
          rw [hbox] at hlook
          cases hlook
      · rw [h.box_detach hd hw]

theorem delivered_subscribe {c : Nat} (hfresh : x.watchers c = none) (before : List LogLine)
    (replay : List JobEvent) (d : Nat) :
    delivered (some (st.attach c),
        { x with watchers := Function.update x.watchers c (some { before, replay }) }) d =
      delivered (some st, x) d := by
  by_cases hd : d = c
  · subst hd
    simp [delivered, hfresh, Watcher.box, JobLogState.lookup_attach_self]
  · simp [delivered, hd, Watcher.box, JobLogState.lookup_attach hd]

theorem delivered_receive (h : Posted j (some st) x) {c : Nat} {ev : JobEvent}
    {rest : List JobEvent} {dropped : Nat}
    (hbox : st.subs.lookup c = some ⟨ev :: rest, dropped⟩) (d : Nat) :
    delivered (some (st.advance c),
        x.modify c fun w => { w with received := w.received ++ [ev] }) d =
      delivered (some st, x) d := by
  by_cases hd : d = c
  · subst hd
    obtain ⟨w, hw, hleft⟩ := h.known st d _ rfl hbox
    rw [delivered_of_watcher (Account.modify_self hw), delivered_of_watcher hw,
      Watcher.box_attached hleft hbox,
      Watcher.box_attached (by exact hleft) (JobLogState.advance_self hbox)]
    simp
  · simp [delivered, Account.modify_other hd, Watcher.box, JobLogState.advance_other hd]

theorem delivered_of_finished {y y' : Option JobLogState × Account} {op : EntryOp}
    (hb : Balanced maxLines j y) (hfin : y.2.finished = true) (hfresh : fresh y op)
    (hstep : (accounted cap maxLines j).step y op = some (y', es)) (d : Nat) :
    delivered y' d = delivered y d ∧ y'.2.finished = true := by
  obtain ⟨s, x⟩ := y
  obtain ⟨s', x'⟩ := y'
  obtain ⟨hst, hx⟩ := Lib.Machine.record_step.mp hstep
  simp only at hst hx hfin
  subst hx
  cases s with
  | none => cases hst
  | some st =>
    have hterm := (hb.2.terminal st rfl).trans hfin
    cases op with
    | append line waiting =>
      cases hst
      simp only [Account.observe, hfin, hterm, if_true, and_self]
    | subscribe c =>
      cases hst
      exact ⟨delivered_subscribe hfresh _ _ d, hfin⟩
    | receive c =>
      simp only [entry] at hst
      split at hst
      · rename_i ev rest dropped hbox
        cases hst
        exact ⟨delivered_receive hb.1 hbox d, hfin⟩
      · cases hst
    | unsubscribe c =>
      cases hst
      refine ⟨delivered_unsubscribe hb.1 c d, ?_⟩
      cases st.subs.lookup c <;> exact hfin
    | finish result waiting =>
      cases hst
      simp only [JobLogState.closeIn, Account.observe, hfin, hterm, if_true, and_self]

/-- Over the whole life of an entry, the replay buffer holds the first `maxLines` lines and counts
the others, each subscriber's replay is followed without gap or overlap by the events of its
time, of which it gets what its channel has room for, the rest being counted, and nothing is
delivered after `Finish`. -/
theorem entry_accounting {cap maxLines : Nat} {jobID : String} {ops : List EntryOp}
    {es : List EntryEvent} {s : Option JobLogState} {x : Account}
    (hrun : (accounted cap maxLines jobID).Run fresh (some {}, {}) ops es (s, x)) :
    (∀ st, s = some st → st.lines = x.lines.take maxLines ∧
      st.dropped = x.lines.length - min x.lines.length maxLines) ∧
    (∀ c w, x.watchers c = some w →
      w.replay = (w.before.take maxLines).map (.log jobID) ∧
      w.before ++ w.since <+: x.lines ∧
      (w.received ++ (w.box s c).ch).Sublist (w.due jobID) ∧
      (w.received ++ (w.box s c).ch).length + (w.box s c).dropped = (w.due jobID).length) ∧
    (x.finished = true → ∀ ops' es' y',
      (accounted cap maxLines jobID).Run fresh (s, x) ops' es' y' →
      ∀ c, delivered y' c = delivered (s, x) c) := by
  have hb : Balanced maxLines jobID (s, x) :=
    hrun.invariant ⟨.start jobID, .start maxLines jobID⟩ fun y op y' e hy _ hstep =>
      balanced_step hy hstep
  refine ⟨?_, ?_, ?_⟩
  · intro st hst
    obtain ⟨hlines, hdropped⟩ := hb.2.lines st hst
    refine ⟨hlines, hdropped.trans ?_⟩
    simp only
    omega
  · intro c w hw
    have hplaced := hb.2.placed c w hw
    have hledger := hb.1.ledger c w hw
    exact ⟨hplaced.replay, hplaced.place, hledger.order, hledger.count⟩
  · intro hfin ops' es' y' hrun' c
    have hall : Balanced maxLines jobID y' ∧ y'.2.finished = true ∧
        delivered y' c = delivered (s, x) c := by
      refine hrun'.invariant (P := fun y => Balanced maxLines jobID y ∧ y.2.finished = true ∧
        delivered y c = delivered (s, x) c) ⟨hb, hfin, rfl⟩ ?_
      intro y op y' e ⟨hy, hyfin, hysame⟩ hok hstep
      obtain ⟨hsame, hfin'⟩ := delivered_of_finished hy hyfin hok hstep c
      exact ⟨balanced_step hy hstep, hfin', hsame.trans hysame⟩
    exact hall.2.2

def sampleEntryLine (b : UInt8) : LogLine where
  line := [b]
  isStderr := false
  tsUnixMs := 0

def freshNow (y : Option JobLogState × Account) : EntryOp → Bool
  | .subscribe sub => (y.2.watchers sub).isNone
  | _ => true

theorem fresh_of_freshNow {y : Option JobLogState × Account} {op : EntryOp}
    (h : freshNow y op = true) : fresh y op := by
  cases op with
  | subscribe sub => exact Option.isNone_iff_eq_none.mp h
  | _ => trivial

def sampleAccount : (Option JobLogState × Account) × List EntryEvent :=
  ((accounted 1 1 "j").exec freshNow (some {}, {})
    [.append (sampleEntryLine 1) [], .subscribe 7, .append (sampleEntryLine 2) [], .receive 7,
      .subscribe 8, .append (sampleEntryLine 3) [], .append (sampleEntryLine 4) [], .receive 7,
      .finish (.status "j" .done) [], .unsubscribe 8]).get (by decide)

def sampleWatcher : Watcher := (sampleAccount.1.2.watchers 8).get (by decide)

theorem entry_accounting_sample :
    sampleAccount.1.2.lines = [1, 2, 3, 4].map sampleEntryLine ∧
      sampleAccount.1.2.finished = true ∧
      sampleWatcher.replay = [.log "j" (sampleEntryLine 1)] ∧
      delivered sampleAccount.1 8 = [.log "j" (sampleEntryLine 3)] ∧
      (sampleWatcher.box sampleAccount.1.1 8).dropped = 2 ∧
      (sampleWatcher.received ++ (sampleWatcher.box sampleAccount.1.1 8).ch).Sublist
        (sampleWatcher.due "j") := by
  have hrun : (accounted 1 1 "j").Run fresh (some {}, {}) _ sampleAccount.2 sampleAccount.1 :=
    (Lib.Machine.run_of_exec_get (by decide)).mono fun _ _ => fresh_of_freshNow
  rw [← Prod.mk.eta (p := sampleAccount.1)] at hrun
  obtain ⟨-, hall, -⟩ := entry_accounting hrun
  have hw : sampleAccount.1.2.watchers 8 = some sampleWatcher :=
    (Option.some_get (by decide)).symm
  exact ⟨by decide, by decide, by decide, by decide, by decide, (hall 8 _ hw).2.2.1⟩

end Accounts

end Minimodal
