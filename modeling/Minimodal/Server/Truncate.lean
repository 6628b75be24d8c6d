import Minimodal.Lib.Utf8
import Minimodal.Server.Delivery

namespace Minimodal

def LogLine.CutsBetween (line : LogLine) : Prop :=
  ∀ b, line.line[maxLineBytes]? = some b → b.IsUTF8FirstByte

structure LogLine.Truncated (line out : LogLine) : Prop where
  same : line.line.length ≤ maxLineBytes → out = line
  cut : maxLineBytes < line.line.length →
    ∃ front, front <+: line.line ∧ front.length ≤ maxLineBytes ∧ out.line = front ++ truncationMark
  utf8 : Lib.IsUtf8 line.line → (Lib.IsUtf8 out.line ↔ line.CutsBetween)

theorem isUtf8_truncationMark : Lib.IsUtf8 truncationMark := by
  unfold truncationMark Lib.IsUtf8
  rw [Lib.toByteArray_toList]
  exact String.isValidUTF8 _

theorem truncationMark_ne_nil : truncationMark ≠ [] := by
  intro h
  have hempty := congrArg List.toByteArray h
  rw [truncationMark, Lib.toByteArray_toList] at hempty
  simp at hempty

theorem LogLine.truncated (line : LogLine) : line.Truncated (LogHub.truncate line) := by
  by_cases hlong : line.line.length > maxLineBytes
  · have hcut : LogHub.truncate line =
        { line with line := line.line.take maxLineBytes ++ truncationMark } := if_pos hlong
    rw [hcut]
    refine ⟨fun hle => absurd hlong (Nat.not_lt.mpr hle), fun _ => ?_, fun hvalid => ?_⟩
    · exact ⟨_, List.take_prefix .., List.length_take_le .., rfl⟩
    · rw [isUtf8_truncationMark.append_iff truncationMark_ne_nil, hvalid.take_iff hlong]
      simp [CutsBetween, List.getElem?_eq_getElem hlong]
  · have hsame : LogHub.truncate line = line := if_neg hlong
    rw [hsame]
    refine ⟨fun _ => rfl, fun hgt => absurd hgt hlong, fun hvalid => ?_⟩
    simp [CutsBetween, List.getElem?_eq_none (Nat.le_of_not_lt hlong), hvalid]

theorem JobLogState.lines_take {st : JobLogState} (ht : st.terminal = none) (maxLines : Nat)
    (j : String) (lines : List LogLine) :
    (st.take maxLines j lines).lines =
      st.lines ++ (lines.map LogHub.truncate).take (maxLines - st.lines.length) := by
  simp only [take, ht, Option.isSome_none, Bool.false_eq_true, if_false]
  induction lines generalizing st with
  | nil => simp
  | cons line lines ih =>
    rw [List.foldl_cons, ih ((appendLine_terminal ..).trans ht)]
    unfold LogHub.appendLine
    simp only [fanOut]
    split
    · rename_i hfull
      have hnone : maxLines - st.lines.length = 0 := Nat.sub_eq_zero_of_le hfull
      simp [hnone]
    · rename_i hroom
      have hleft : maxLines - st.lines.length = maxLines - (st.lines.length + 1) + 1 := by omega
      rw [hleft, List.map_cons, List.take_succ_cons]
      simp

namespace LogHub

theorem lines_append {h : LogHub} {jobID : String} (hopen : (h.get jobID).terminal = none)
    (lines : List LogLine) :
    ((h.append jobID lines).get jobID).lines =
      (h.get jobID).lines ++ (lines.map truncate).take (h.maxLines - (h.get jobID).lines.length) := by
  rw [get_append]
  split
  · rw [JobLogState.lines_take hopen]
  · rename_i hnil
    have hnil : lines = [] := by simpa using hnil
    simp [hnil]

/-- Every line handed to `Append` is buffered and fanned out in a form that is the line itself or
a front of it followed by the mark, and that is a text again iff the cut does not fall into a
character. -/
theorem append_truncates (h : LogHub) (jobID : String) (lines : List LogLine)
    (hopen : (h.get jobID).terminal = none) :
    ∃ outs, List.Forall₂ LogLine.Truncated lines outs ∧
      ((h.append jobID lines).get jobID).lines =
        (h.get jobID).lines ++ outs.take (h.maxLines - (h.get jobID).lines.length) ∧
      ∀ sub, ((h.append jobID lines).get jobID).subs.lookup sub =
        ((h.get jobID).subs.lookup sub).map (LogSub.sendAll (outs.map (.log jobID))) := by
  refine ⟨lines.map truncate, ?_, lines_append hopen lines, fun sub => ?_⟩
  · rw [List.forall₂_map_right_iff]
    exact List.forall₂_same.mpr fun line _ => line.truncated
  · rw [get_append]
    split
    · rw [JobLogState.lookup_take hopen]
    · rename_i hnil
      have hnil : lines = [] := by simpa using hnil
      rw [hnil]
      cases (h.get jobID).subs.lookup sub <;> rfl

end LogHub

def sampleText (text : Bytes) : LogLine where
  line := text
  isStderr := false
  tsUnixMs := 0

def sampleLong : LogLine := sampleText (List.replicate (maxLineBytes + 1) 97)

theorem append_truncates_sample :
    ∃ out front, ((LogHub.new.append "j" [sampleLong]).get "j").lines = [out] ∧
      out.line = front ++ truncationMark ∧ front <+: sampleLong.line ∧
      front.length < sampleLong.line.length ∧ Lib.IsUtf8 out.line := by
  obtain ⟨outs, houts, hlines, -⟩ := LogHub.append_truncates LogHub.new "j" [sampleLong]
    (by rw [Server.LogHub.get_new])
  have hlong : maxLineBytes < sampleLong.line.length := by simp [sampleLong, sampleText]
  have hvalid : Lib.IsUtf8 sampleLong.line := Lib.IsUtf8.replicate (Lib.IsUtf8.char 'a') _
  cases houts with
  | cons hout hnil =>
    cases hnil
    rw [Server.LogHub.get_new] at hlines
    obtain ⟨front, hfront, hlen, hline⟩ := hout.cut hlong
    refine ⟨_, front, hlines, hline, hfront, Nat.lt_of_le_of_lt hlen hlong,
      (hout.utf8 hvalid).mpr fun b hb => ?_⟩
    rw [List.eq_of_mem_replicate (List.mem_of_getElem? hb)]
    decide

/-- All but one byte of the room is taken when a character of two bytes comes. -/
def sampleSplit : LogLine := sampleText (List.replicate (maxLineBytes - 1) 97 ++ [0xC3, 0xA9])

theorem append_splits_character :
    Lib.IsUtf8 sampleSplit.line ∧
      ∃ out, ((LogHub.new.append "j" [sampleSplit]).get "j").lines = [out] ∧
        ¬ Lib.IsUtf8 out.line := by
  have hvalid : Lib.IsUtf8 sampleSplit.line :=
    (Lib.IsUtf8.replicate (Lib.IsUtf8.char 'a') _).append (Lib.IsUtf8.char 'é')
  refine ⟨hvalid, LogHub.truncate sampleSplit, ?_, ?_⟩
  · rw [LogHub.lines_append (by rw [Server.LogHub.get_new]), Server.LogHub.get_new]
    rfl
  · rw [sampleSplit.truncated.utf8 hvalid]
    intro hcut
    have hbyte : sampleSplit.line[maxLineBytes]? = some 0xA9 := by
      unfold sampleSplit sampleText
      rw [List.getElem?_append_right (by simp), List.length_replicate]
      rfl
    exact absurd (hcut _ hbyte) (by decide)

end Minimodal
