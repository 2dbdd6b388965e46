import TalkingCalculator.Session.Basic

namespace TalkingCalculator

structure Screen where
  expression : String
  result : String
deriving DecidableEq, Repr

namespace Screen

/-- The screen before it is told anything. -/
def initial : Screen :=
  ⟨"0", "0"⟩

def afterOne (screen : Screen) : Effect → Screen
  | .showExpression text => { screen with expression := text }
  | .showResult text => { screen with result := text }
  | .announce _ _ => screen

def after (screen : Screen) (effects : List Effect) : Screen :=
  effects.foldl afterOne screen

theorem after_append (screen : Screen) (first second : List Effect) :
    screen.after (first ++ second) = (screen.after first).after second :=
  List.foldl_append

end Screen

/-- The announcements among effects, in order. -/
def announcements (effects : List Effect) : List (String × Language) :=
  effects.filterMap fun
    | .announce text language => some (text, language)
    | _ => none

end TalkingCalculator
