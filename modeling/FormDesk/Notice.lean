/-
Notices: what is written to the log when a request is ignored, a step is
given up or a fallback is taken. A notice is a warning, save the one about a
recording that could not start, which is an error.
-/
import FormDesk.Session.Error
import FormDesk.Tabs.Error

namespace FormDesk

/-- A line of the log. -/
inductive Notice where
  | noIndentation
  | undoRefused
  | unknownShareReleased
  | changedIgnored (cause : ModelError)
  | changedUnmatched
  | endRecordingIgnored (cause : ModelError)
  | endRecordingUnmatched
  | unsubscribeIgnored (cause : ModelError)
  | editAborted (cause : SessionError)
  | recordingNotStarted (cause : SessionError)
  | recordingNotEnded (cause : ModelError)
  | nothingToUnsubscribe
  | unsubscribeFailed (cause : ModelError)
  | pagesNotFollowing (cause : SessionError)
  | defaultPageFailed (cause : PageError)
  | activePageNotRemembered (cause : PageError)
  deriving DecidableEq, Repr

/-- The text of a notice, led by its level. -/
def Notice.text : Notice → String
  | .noIndentation => "WARN could not obtain indentation"
  | .undoRefused => "WARN undo refused while the model is being edited"
  | .unknownShareReleased => "WARN release of unknown model handle ignored"
  | .changedIgnored cause => "WARN changed() ignored: " ++ cause.message
  | .changedUnmatched => "WARN changed() without matching about_to_change() ignored"
  | .endRecordingIgnored cause => "WARN end_recording() ignored: " ++ cause.message
  | .endRecordingUnmatched => "WARN end_recording() without an open segment ignored"
  | .unsubscribeIgnored cause => "WARN unsubscribe() ignored: " ++ cause.message
  | .editAborted cause => "WARN edit aborted before mutation: " ++ cause.message
  | .recordingNotStarted cause => "ERROR " ++ cause.message
  | .recordingNotEnded cause =>
    "WARN could not reacquire model to end undo recording: " ++ cause.message
  | .nothingToUnsubscribe => "WARN model had no subscription to remove"
  | .unsubscribeFailed cause => "WARN could not acquire model to unsubscribe: " ++ cause.message
  | .pagesNotFollowing cause => "WARN pages will not follow model changes: " ++ cause.message
  | .defaultPageFailed cause =>
    "WARN selecting default page failed; showing first page: " ++ cause.message
  | .activePageNotRemembered cause => "WARN could not remember active page: " ++ cause.message

end FormDesk
