import TalkingCalculator.Words.Language

namespace TalkingCalculator

/-- What the calculator announces besides keys and numbers. -/
inductive Notice where
  | calculationError
  | cleared
  | deleted
  | voiceEnabled
  | memoryCleared
  | memoryAdded
  | memorySubtracted
  | degreeMode
  | radianMode
deriving DecidableEq, Repr

/-- The words of a language. In `units`, `tens` and `hundreds` the entry of zero is empty, since
nothing is said of it. -/
structure Lexicon where
  /-- The digits, when they are read one by one. -/
  digits : Vector String 10
  /-- The names of the other keys. -/
  keys : List (String × String)
  /-- Names that take precedence when a key is pressed. -/
  pressedKeys : List (String × String)
  units : Vector String 10
  /-- The numbers from ten to nineteen. -/
  teens : Vector String 10
  tens : Vector String 10
  hundreds : Vector String 10
  trillion : String
  billion : String
  million : String
  thousand : String
  /-- The word between two parts of a number. -/
  conjunction : String
  zero : String
  point : String
  negative : String
  infinity : String
  undefined : String
  /-- The word that is shown in place of a result. -/
  error : String
  notice : Notice → String

namespace Lexicon

def persian : Lexicon where
  digits := #v["صفر", "یک", "دو", "سه", "چهار", "پنج", "شش", "هفت", "هشت", "نه"]
  keys := [
    (".", "ممیز"),
    ("+", "جمع"),
    ("-", "منها"),
    ("*", "ضرب"),
    ("/", "تقسیم"),
    ("%", "درصد"),
    ("(", "پرانتز باز"),
    (")", "پرانتز بسته"),
    (",", "کاما"),
    ("sin", "سینوس"),
    ("cos", "کسینوس"),
    ("tan", "تانژانت"),
    ("sqrt", "رادیکال"),
    ("pow", "توان"),
    ("log", "لگاریتم"),
    ("PI", "پی"),
    ("e", "عدد نپر")]
  pressedKeys := [("-", "منهای")]
  units := #v["", "یک", "دو", "سه", "چهار", "پنج", "شش", "هفت", "هشت", "نه"]
  teens :=
  #v["ده", "یازده", "دوازده", "سیزده", "چهارده", "پانزده", "شانزده", "هفده", "هجده", "نوزده"]
  tens := #v["", "ده", "بیست", "سی", "چهل", "پنجاه", "شصت", "هفتاد", "هشتاد", "نود"]
  hundreds := #v["", "یکصد", "دویست", "سیصد", "چهارصد", "پانصد", "ششصد", "هفتصد", "هشتصد", "نهصد"]
  trillion := "تریلیون"
  billion := "میلیارد"
  million := "میلیون"
  thousand := "هزار"
  conjunction := "و"
  zero := "صفر"
  point := "ممیز"
  negative := "منفی"
  infinity := "بی‌نهایت"
  undefined := "نامشخص"
  error := "خطا"
  notice
    | .calculationError => "خطا در محاسبه"
    | .cleared => "پاک شد"
    | .deleted => "حذف شد"
    | .voiceEnabled => "صدا فعال شد"
    | .memoryCleared => "حافظه پاک شد"
    | .memoryAdded => "به حافظه اضافه شد"
    | .memorySubtracted => "از حافظه کم شد"
    | .degreeMode => "حالت درجه"
    | .radianMode => "حالت رادیان"

def english : Lexicon where
  digits := #v["zero", "one", "two", "three", "four", "five", "six", "seven", "eight", "nine"]
  keys := [
    (".", "point"),
    ("+", "plus"),
    ("-", "minus"),
    ("*", "times"),
    ("/", "divided by"),
    ("%", "percent"),
    ("(", "open parenthesis"),
    (")", "close parenthesis"),
    (",", "comma"),
    ("sin", "sine"),
    ("cos", "cosine"),
    ("tan", "tangent"),
    ("sqrt", "square root"),
    ("pow", "power"),
    ("log", "log"),
    ("PI", "pi"),
    ("e", "e")]
  pressedKeys := []
  units := #v["", "one", "two", "three", "four", "five", "six", "seven", "eight", "nine"]
  teens :=
  #v["ten", "eleven", "twelve", "thirteen", "fourteen", "fifteen", "sixteen", "seventeen",
    "eighteen", "nineteen"]
  tens :=
  #v["", "ten", "twenty", "thirty", "forty", "fifty", "sixty", "seventy", "eighty", "ninety"]
  hundreds :=
  #v["", "one hundred", "two hundred", "three hundred", "four hundred", "five hundred",
    "six hundred", "seven hundred", "eight hundred", "nine hundred"]
  trillion := "trillion"
  billion := "billion"
  million := "million"
  thousand := "thousand"
  conjunction := "and"
  zero := "zero"
  point := "point"
  negative := "negative"
  infinity := "infinity"
  undefined := "undefined"
  error := "Error"
  notice
    | .calculationError => "calculation error"
    | .cleared => "cleared"
    | .deleted => "deleted"
    | .voiceEnabled => "voice enabled"
    | .memoryCleared => "memory cleared"
    | .memoryAdded => "added to memory"
    | .memorySubtracted => "subtracted from memory"
    | .degreeMode => "degree mode"
    | .radianMode => "radian mode"

/-- The name of a key that is not being pressed. -/
def keyName? (lexicon : Lexicon) (key : String) : Option String :=
  match key.toList with
  | [c] => if c.isDigit then lexicon.digits[c.toNat - '0'.toNat]? else lexicon.keys.lookup key
  | _ => lexicon.keys.lookup key

/-- The name of a key that is being pressed. -/
def pressedKeyName? (lexicon : Lexicon) (key : String) : Option String :=
  lexicon.pressedKeys.lookup key <|> lexicon.keyName? key

end Lexicon

def Language.lexicon : Language → Lexicon
  | persian => .persian
  | english => .english

end TalkingCalculator
