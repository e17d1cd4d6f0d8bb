import FeatureTree.Text.Blank

/-!
The keywords of the languages a feature file can be written in.

The words of a list are tried in its order, so a word that is the start of a later one hides it.
Step keywords keep the blank that separates them from the text of the step; languages that write
no blank there have none.

Fourteen languages have their words here: `en`, `fr`, `de`, `es`, `pt`, `ru`, `ja`, `zh-CN`, `em`,
`ht`, `en-au`, `en-pirate`, `en-lol` and `formal`. The other sixty-four codes name a language too,
so a dialect can have them and a text can declare them, but their words are not covered. No line is
a keyword line in these languages, and no feature is read in them.
-/

namespace FeatureTree

structure Keywords where
  feature : List String
  background : List String
  rule : List String
  scenario : List String
  outline : List String
  examples : List String
  stepGiven : List String
  stepWhen : List String
  stepThen : List String
  stepAnd : List String
  stepBut : List String

namespace Keywords

/-- The keywords of a language whose words are not covered. -/
def empty : Keywords := ⟨[], [], [], [], [], [], [], [], [], [], []⟩

def en : Keywords where
  feature := ["Feature", "Business Need", "Ability"]
  background := ["Background"]
  rule := ["Rule"]
  scenario := ["Example", "Scenario"]
  outline := ["Scenario Outline", "Scenario Template"]
  examples := ["Examples", "Scenarios"]
  stepGiven := ["* ", "Given "]
  stepWhen := ["* ", "When "]
  stepThen := ["* ", "Then "]
  stepAnd := ["* ", "And "]
  stepBut := ["* ", "But "]

def fr : Keywords where
  feature := ["Fonctionnalité"]
  background := ["Contexte"]
  rule := ["Règle"]
  scenario := ["Exemple", "Scénario"]
  outline := ["Plan du scénario", "Plan du Scénario"]
  examples := ["Exemples"]
  stepGiven := [
    "* ", "Soit ", "Sachant que ", "Sachant qu'", "Sachant ", "Etant donné que ",
    "Etant donné qu'", "Etant donné ", "Etant donnée ", "Etant donnés ", "Etant données ",
    "Étant donné que ", "Étant donné qu'", "Étant donné ", "Étant donnée ", "Étant donnés ",
    "Étant données "]
  stepWhen := ["* ", "Quand ", "Lorsque ", "Lorsqu'"]
  stepThen := ["* ", "Alors ", "Donc "]
  stepAnd := ["* ", "Et que ", "Et qu'", "Et "]
  stepBut := ["* ", "Mais que ", "Mais qu'", "Mais "]

def de : Keywords where
  feature := ["Funktionalität", "Funktion"]
  background := ["Grundlage", "Hintergrund", "Voraussetzungen", "Vorbedingungen"]
  rule := ["Rule", "Regel"]
  scenario := ["Beispiel", "Szenario"]
  outline := ["Szenariogrundriss", "Szenarien"]
  examples := ["Beispiele"]
  stepGiven := ["* ", "Angenommen ", "Gegeben sei ", "Gegeben seien "]
  stepWhen := ["* ", "Wenn "]
  stepThen := ["* ", "Dann "]
  stepAnd := ["* ", "Und "]
  stepBut := ["* ", "Aber "]

def es : Keywords where
  feature := ["Característica", "Necesidad del negocio", "Requisito"]
  background := ["Antecedentes"]
  rule := ["Regla", "Regla de negocio"]
  scenario := ["Ejemplo", "Escenario"]
  outline := ["Esquema del escenario"]
  examples := ["Ejemplos"]
  stepGiven := ["* ", "Dado ", "Dada ", "Dados ", "Dadas "]
  stepWhen := ["* ", "Cuando "]
  stepThen := ["* ", "Entonces "]
  stepAnd := ["* ", "Y ", "E "]
  stepBut := ["* ", "Pero "]

def pt : Keywords where
  feature := ["Funcionalidade", "Característica", "Caracteristica"]
  background := ["Contexto", "Cenário de Fundo", "Cenario de Fundo", "Fundo"]
  rule := ["Regra"]
  scenario := ["Exemplo", "Cenário", "Cenario"]
  outline := ["Esquema do Cenário", "Esquema do Cenario", "Delineação do Cenário", "Delineacao do Cenario"]
  examples := ["Exemplos", "Cenários", "Cenarios"]
  stepGiven := ["* ", "Dado ", "Dada ", "Dados ", "Dadas "]
  stepWhen := ["* ", "Quando "]
  stepThen := ["* ", "Então ", "Entao "]
  stepAnd := ["* ", "E "]
  stepBut := ["* ", "Mas "]

def ru : Keywords where
  feature := ["Функция", "Функциональность", "Функционал", "Свойство"]
  background := ["Предыстория", "Контекст"]
  rule := ["Правило"]
  scenario := ["Пример", "Сценарий"]
  outline := ["Структура сценария", "Шаблон сценария"]
  examples := ["Примеры"]
  stepGiven := ["* ", "Допустим ", "Дано ", "Пусть "]
  stepWhen := ["* ", "Когда ", "Если "]
  stepThen := ["* ", "То ", "Затем ", "Тогда "]
  stepAnd := ["* ", "И ", "К тому же ", "Также "]
  stepBut := ["* ", "Но ", "А ", "Иначе "]

def ja : Keywords where
  feature := ["フィーチャ", "機能"]
  background := ["背景"]
  rule := ["Rule"]
  scenario := ["シナリオ"]
  outline := ["シナリオアウトライン", "シナリオテンプレート", "テンプレ", "シナリオテンプレ"]
  examples := ["例", "サンプル"]
  stepGiven := ["* ", "前提"]
  stepWhen := ["* ", "もし"]
  stepThen := ["* ", "ならば"]
  stepAnd := ["* ", "かつ"]
  stepBut := ["* ", "しかし", "但し", "ただし"]

def zhCn : Keywords where
  feature := ["功能"]
  background := ["背景"]
  rule := ["Rule"]
  scenario := ["场景", "剧本"]
  outline := ["场景大纲", "剧本大纲"]
  examples := ["例子"]
  stepGiven := ["* ", "假如", "假设", "假定"]
  stepWhen := ["* ", "当"]
  stepThen := ["* ", "那么"]
  stepAnd := ["* ", "而且", "并且", "同时"]
  stepBut := ["* ", "但是"]

def em : Keywords where
  feature := ["📚"]
  background := ["💤"]
  rule := ["Rule"]
  scenario := ["🥒", "📕"]
  outline := ["📖"]
  examples := ["📓"]
  stepGiven := ["* ", "😐"]
  stepWhen := ["* ", "🎬"]
  stepThen := ["* ", "🙏"]
  stepAnd := ["* ", "😂"]
  stepBut := ["* ", "😔"]

def ht : Keywords where
  feature := ["Karakteristik", "Mak", "Fonksyonalite"]
  background := ["Kontèks", "Istorik"]
  rule := ["Rule"]
  scenario := ["Senaryo"]
  outline := [
    "Plan senaryo", "Plan Senaryo", "Senaryo deskripsyon", "Senaryo Deskripsyon",
    "Dyagram senaryo", "Dyagram Senaryo"]
  examples := ["Egzanp"]
  stepGiven := ["* ", "Sipoze ", "Sipoze ke ", "Sipoze Ke "]
  stepWhen := ["* ", "Lè ", "Le "]
  stepThen := ["* ", "Lè sa a ", "Le sa a "]
  stepAnd := ["* ", "Ak ", "Epi ", "E "]
  stepBut := ["* ", "Men "]

def enAu : Keywords where
  feature := ["Pretty much"]
  background := ["First off"]
  rule := ["Rule"]
  scenario := ["Awww, look mate"]
  outline := ["Reckon it's like"]
  examples := ["You'll wanna"]
  stepGiven := ["* ", "Y'know "]
  stepWhen := ["* ", "It's just unbelievable "]
  stepThen := ["* ", "But at the end of the day I reckon "]
  stepAnd := ["* ", "Too right "]
  stepBut := ["* ", "Yeah nah "]

def enPirate : Keywords where
  feature := ["Ahoy matey!"]
  background := ["Yo-ho-ho"]
  rule := ["Rule"]
  scenario := ["Heave to"]
  outline := ["Shiver me timbers"]
  examples := ["Dead men tell no tales"]
  stepGiven := ["* ", "Gangway! "]
  stepWhen := ["* ", "Blimey! "]
  stepThen := ["* ", "Let go and haul "]
  stepAnd := ["* ", "Aye "]
  stepBut := ["* ", "Avast! "]

def enLol : Keywords where
  feature := ["OH HAI"]
  background := ["B4"]
  rule := ["Rule"]
  scenario := ["MISHUN"]
  outline := ["MISHUN SRSLY"]
  examples := ["EXAMPLZ"]
  stepGiven := ["* ", "I CAN HAZ "]
  stepWhen := ["* ", "WEN "]
  stepThen := ["* ", "DEN "]
  stepAnd := ["* ", "AN "]
  stepBut := ["* ", "BUT "]

def formal : Keywords where
  feature := ["Section"]
  background := ["Context"]
  rule := ["Rule"]
  scenario := ["Proof", "Evidence"]
  outline := ["Demonstration"]
  examples := ["Examples"]
  stepGiven := ["Given"]
  stepWhen := ["When"]
  stepThen := ["Then"]
  stepAnd := ["*", "And"]
  stepBut := ["But"]

/-- The languages whose words are covered, by their codes. -/
def table : List (String × Keywords) := [
  ("en", en),
  ("fr", fr),
  ("de", de),
  ("es", es),
  ("pt", pt),
  ("ru", ru),
  ("ja", ja),
  ("zh-CN", zhCn),
  ("em", em),
  ("ht", ht),
  ("en-au", enAu),
  ("en-pirate", enPirate),
  ("en-lol", enLol),
  ("formal", formal)]

/-- The codes that name a language, covered or not. -/
def codes : List String := [
    "af", "am", "an", "ar", "ast", "az", "bg", "bm", "bs", "ca", "cs", "cy-GB", "da", "de",
    "el", "em", "en", "en-Scouse", "en-au", "en-lol", "en-old", "en-pirate", "en-tx", "eo",
    "es", "et", "fa", "fi", "fr", "ga", "gj", "gl", "he", "hi", "hr", "ht", "hu", "id", "is",
    "it", "ja", "jv", "ka", "kn", "ko", "lt", "lu", "lv", "mk-Cyrl", "mk-Latn", "mn", "mr",
    "ne", "nl", "no", "pa", "pl", "pt", "ro", "ru", "sk", "sl", "sr-Cyrl", "sr-Latn", "sv",
    "ta", "te", "th", "tlh", "tr", "tt", "uk", "ur", "uz", "vi", "zh-CN", "zh-TW", "formal"]

/-- The keywords of a language, if its code names one. They are empty unless `table` has them. -/
def ofCode? (code : Text) : Option Keywords :=
  let code := String.ofList code
  if codes.contains code then some ((table.lookup code).getD empty) else none

end Keywords

end FeatureTree
