import TalkingCalculator.Window.Basic

namespace TalkingCalculator

inductive Piece where
  | text (content : String)
  | box (label : String) (checked : Bool)
  | button (label : String)
deriving DecidableEq, Repr

namespace Window

def title : String := "Calculatrice parlante"

/-- The last announcement, if there was one. -/
def announcementView (s : Session) : List Piece :=
  if s.lastAnnouncement = "" then [] else [.text ("🔊 " ++ s.lastAnnouncement)]

/-- The memory, if it is not zero. -/
def memoryView (s : Session) : List Piece :=
  if Number.magnitude s.memory = 0 then [] else [.text ("M = " ++ Number.text s.memory)]

/-- The stages of the last calculation, each under its title. -/
def traceView (t : Trace) : List Piece :=
  [.text "Préparée :", .text t.prepared, .text "Jetons :", .text t.tokens, .text "RPN :",
    .text t.postfixOrder, .text "Arbre :", .text t.tree]

/-- All that a window shows. -/
def view (w : Window) : List Piece :=
  [.text title, .text "Expression :", .text w.screen.expression, .text "Résultat :",
    .text w.screen.result] ++
    announcementView w.session ++
    [.box Widget.voiceBox.label w.session.voiceActive,
      .box Widget.degreesBox.label w.session.degrees,
      .text ("Langue : " ++ w.session.language.code)] ++
    memoryView w.session ++
    (Widget.buttons ++ [Widget.tracePanel]).map (fun widget => .button widget.label) ++
    (if w.panelOpen then traceView w.session.trace else [])

end Window

end TalkingCalculator
