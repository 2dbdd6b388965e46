namespace TalkingCalculator

/-- How much an entry matters. -/
inductive Level where
  | error
  | warning
  | info
  | debug
  | trace
deriving DecidableEq, Repr

namespace Level

/-- The place of a level, where less important ones have greater ranks. Zero stands for no entry at
all. -/
def rank : Level → Nat
  | error => 1
  | warning => 2
  | info => 3
  | debug => 4
  | trace => 5

/-- The name of a level in the journal. -/
def name : Level → String
  | error => "ERROR"
  | warning => "WARN"
  | info => "INFO"
  | debug => "DEBUG"
  | trace => "TRACE"

end Level

/-- What the journal records. -/
inductive Entry where
  | defaultsWritten
  | settingsInvalid
  | settingsUnreadable
  | inputPrepared
  | evaluated
  | evaluationSucceeded
  | evaluationRefused
  | announcementStarted
  | speechUnavailable
  | waitFailed
  | voiceDisabled
  | fontLoaded
  | fontAbsent
  | noFont
  | windowFailed
deriving DecidableEq, Repr

namespace Entry

def level : Entry → Level
  | windowFailed => .error
  | settingsInvalid | settingsUnreadable | evaluationRefused | speechUnavailable | noFont =>
    .warning
  | defaultsWritten | evaluationSucceeded | voiceDisabled => .info
  | inputPrepared | evaluated | announcementStarted | waitFailed | fontLoaded | fontAbsent => .debug

/-- The part of the program that an entry comes from. -/
def target : Entry → String
  | defaultsWritten => "calculatrice_parlante::config::fichier"
  | inputPrepared => "calculatrice_parlante::noyau::preparation"
  | evaluated => "calculatrice_parlante::noyau::eval"
  | evaluationSucceeded | evaluationRefused => "calculatrice_parlante::session"
  | announcementStarted | speechUnavailable | waitFailed => "calculatrice_parlante::parole::espeak"
  | voiceDisabled => "calculatrice_parlante::parole"
  | settingsInvalid | settingsUnreadable | fontLoaded | fontAbsent | noFont | windowFailed =>
    "calculatrice_parlante::natif"

/-- The names of the fields of an entry. -/
def fields : Entry → List String
  | defaultsWritten | fontLoaded => ["message", "chemin"]
  | settingsInvalid | settingsUnreadable | waitFailed | windowFailed => ["message", "error"]
  | inputPrepared => ["message", "brut", "prepare"]
  | evaluated => ["message", "brut", "expr", "brute", "v"]
  | evaluationSucceeded => ["message", "expression", "resultat"]
  | evaluationRefused => ["message", "expression", "error"]
  | announcementStarted => ["message", "texte", "langue", "pid"]
  | speechUnavailable => ["message", "commande", "error"]
  | fontAbsent => ["message", "chemin", "error"]
  | voiceDisabled | noFont => ["message"]

def message : Entry → String
  | defaultsWritten => "config par défaut écrite"
  | settingsInvalid => "config invalide (fichier laissé tel quel), valeurs par défaut"
  | settingsUnreadable => "config illisible, valeurs par défaut"
  | inputPrepared => "entrée préparée"
  | evaluated => "évaluation"
  | evaluationSucceeded => "évaluation réussie"
  | evaluationRefused => "évaluation refusée"
  | announcementStarted => "annonce"
  | speechUnavailable => "synthèse vocale indisponible"
  | waitFailed => "attente de l’annonce"
  | voiceDisabled => "commande vocale vide, voix désactivée"
  | fontLoaded => "police chargée"
  | fontAbsent => "police absente"
  | noFont => "aucune police trouvée, les glyphes persans peuvent manquer"
  | windowFailed => "fenêtre interrompue"

end Entry

end TalkingCalculator
