namespace TalkingCalculator

inductive Language where
  | persian
  | english
deriving DecidableEq, Repr

namespace Language

def code : Language → String
  | persian => "fa"
  | english => "en"

def ofCode? (s : String) : Option Language :=
  [persian, english].find? fun l => l.code = s

@[simp] theorem ofCode?_code (l : Language) : ofCode? l.code = some l := by
  cases l <;> rfl

end Language

end TalkingCalculator
