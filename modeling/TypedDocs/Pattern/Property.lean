/-!
# Names of character properties

The names a pattern may use for a Unicode property, after loose matching: case,
blanks, hyphens and low lines do not count, nor does a leading `is`. A name alone
is a binary property, a general category or a script; a name with a value is one
of a few properties that have values.
-/

namespace TypedDocs.Pattern

/-- The form in which property names are compared. -/
def looseName (name : List Char) : String :=
  let isHead := match name with
    | c :: d :: _ => (c = 'i' || c = 'I') && (d = 's' || d = 'S')
    | _ => false
  let kept := (if isHead then name.drop 2 else name).filter fun c =>
    c ≠ ' ' && c ≠ '_' && c ≠ '-' && c.toNat < 0x80
  let lowered := kept.map Char.toLower
  if isHead && lowered = ['c'] then "isc" else String.ofList lowered

/-- Properties that a character has or lacks. -/
def binaryProperties : List String :=
  ["asciihexdigit", "ahex", "alphabetic", "alpha", "bidicontrol", "bidic", "bidimirrored",
   "bidim", "caseignorable", "ci",
   "cased", "changeswhencasefolded", "cwcf", "changeswhencasemapped", "cwcm",
   "changeswhenlowercased", "cwl", "changeswhentitlecased", "cwt", "changeswhenuppercased", "cwu",
   "dash", "defaultignorablecodepoint", "di", "deprecated", "dep", "diacritic", "dia", "emoji",
   "emojicomponent", "ecomp", "emojimodifier", "emod", "emojimodifierbase", "ebase",
   "emojipresentation", "epres", "extendedpictographic", "extpict", "extender", "ext",
   "graphemebase", "grbase", "graphemeextend", "grext", "graphemelink", "grlink", "hexdigit",
   "hex", "hyphen", "idsbinaryoperator", "idsb", "idstrinaryoperator", "idst", "idsunaryoperator",
   "idsu", "idcompatmathcontinue", "idcompatmathstart", "idcontinue", "idc", "idstart", "ids",
   "ideographic", "ideo", "joincontrol", "joinc", "logicalorderexception", "loe", "lowercase",
   "lower", "math", "modifiercombiningmark", "mcm", "noncharactercodepoint", "nchar",
   "otheralphabetic", "oalpha", "otherdefaultignorablecodepoint", "odi", "othergraphemeextend",
   "ogrext", "otheridcontinue", "oidc", "otheridstart", "oids", "otherlowercase", "olower",
   "othermath", "omath", "otheruppercase", "oupper", "patternsyntax", "patsyn",
   "patternwhitespace", "patws", "prependedconcatenationmark", "pcm", "quotationmark", "qmark",
   "radical", "regionalindicator", "ri", "sentenceterminal", "sterm", "softdotted", "sd",
   "terminalpunctuation", "term", "unifiedideograph", "uideo", "uppercase", "upper",
   "variationselector", "vs", "whitespace", "wspace", "space", "xidcontinue", "xidc", "xidstart",
   "xids"]

/-- Values of the general category, and the three sets that are written like one. -/
def generalCategories : List String :=
  ["any", "ascii", "assigned", "c", "casedletter", "cc", "cf", "closepunctuation", "cn", "cntrl",
   "co", "combiningmark", "connectorpunctuation", "control", "currencysymbol", "dashpunctuation",
   "decimalnumber", "digit", "enclosingmark", "finalpunctuation", "format", "initialpunctuation",
   "l", "lc", "letter", "letternumber", "lineseparator", "ll", "lm", "lo", "lowercaseletter",
   "lt", "lu", "m", "mark", "mathsymbol", "mc", "me", "mn", "modifierletter", "modifiersymbol",
   "n", "nd", "nl", "no", "nonspacingmark", "number", "openpunctuation", "other", "otherletter",
   "othernumber", "otherpunctuation", "othersymbol", "p", "paragraphseparator", "pc", "pd", "pe",
   "pf", "pi", "po", "privateuse", "ps", "punct", "punctuation", "s", "sc", "separator", "sk",
   "sm", "so", "spaceseparator", "spacingmark", "symbol", "titlecaseletter", "unassigned",
   "uppercaseletter", "z", "zl", "zp", "zs"]

/-- Scripts, by code and by name. -/
def scripts : List String :=
  ["adlam", "adlm", "aghb", "ahom", "anatolianhieroglyphs", "arab", "arabic", "armenian", "armi",
   "armn", "avestan", "avst", "bali", "balinese", "bamu", "bamum", "bass", "bassavah", "batak",
   "batk", "beng", "bengali", "bhaiksuki", "bhks", "bopo", "bopomofo", "brah", "brahmi", "brai",
   "braille", "bugi", "buginese", "buhd", "buhid", "cakm", "canadianaboriginal", "cans", "cari",
   "carian", "caucasianalbanian", "chakma", "cham", "cher", "cherokee", "chorasmian", "chrs",
   "common", "copt", "coptic", "cpmn", "cprt", "cuneiform", "cypriot", "cyprominoan", "cyrillic",
   "cyrl", "deseret", "deva", "devanagari", "diak", "divesakuru", "dogr", "dogra", "dsrt", "dupl",
   "duployan", "egyp", "egyptianhieroglyphs", "elba", "elbasan", "elym", "elymaic", "ethi",
   "ethiopic", "gara", "garay", "geor", "georgian", "glag", "glagolitic", "gong", "gonm", "goth",
   "gothic", "gran", "grantha", "greek", "grek", "gujarati", "gujr", "gukh", "gunjalagondi",
   "gurmukhi", "guru", "gurungkhema", "han", "hang", "hangul", "hani", "hanifirohingya", "hano",
   "hanunoo", "hatr", "hatran", "hebr", "hebrew", "hira", "hiragana", "hluw", "hmng", "hmnp",
   "hung", "imperialaramaic", "inherited", "inscriptionalpahlavi", "inscriptionalparthian",
   "ital", "java", "javanese", "kaithi", "kali", "kana", "kannada", "katakana", "kawi", "kayahli",
   "khar", "kharoshthi", "khitansmallscript", "khmer", "khmr", "khoj", "khojki", "khudawadi",
   "kiratrai", "kits", "knda", "krai", "kthi", "lana", "lao", "laoo", "latin", "latn", "lepc",
   "lepcha", "limb", "limbu", "lina", "linb", "lineara", "linearb", "lisu", "lyci", "lycian",
   "lydi", "lydian", "mahajani", "mahj", "maka", "makasar", "malayalam", "mand", "mandaic",
   "mani", "manichaean", "marc", "marchen", "masaramgondi", "medefaidrin", "medf", "meeteimayek",
   "mend", "mendekikakui", "merc", "mero", "meroiticcursive", "meroitichieroglyphs", "miao",
   "mlym", "modi", "mong", "mongolian", "mro", "mroo", "mtei", "mult", "multani", "myanmar",
   "mymr", "nabataean", "nagm", "nagmundari", "nand", "nandinagari", "narb", "nbat", "newa",
   "newtailue", "nko", "nkoo", "nshu", "nushu", "nyiakengpuachuehmong", "ogam", "ogham",
   "olchiki", "olck", "oldhungarian", "olditalic", "oldnortharabian", "oldpermic", "oldpersian",
   "oldsogdian", "oldsoutharabian", "oldturkic", "olduyghur", "olonal", "onao", "oriya", "orkh",
   "orya", "osage", "osge", "osma", "osmanya", "ougr", "pahawhhmong", "palm", "palmyrene", "pauc",
   "paucinhau", "perm", "phag", "phagspa", "phli", "phlp", "phnx", "phoenician", "plrd", "prti",
   "psalterpahlavi", "qaac", "qaai", "rejang", "rjng", "rohg", "runic", "runr", "samaritan",
   "samr", "sarb", "saur", "saurashtra", "sgnw", "sharada", "shavian", "shaw", "shrd", "sidd",
   "siddham", "signwriting", "sind", "sinh", "sinhala", "sogd", "sogdian", "sogo", "sora",
   "sorasompeng", "soyo", "soyombo", "sund", "sundanese", "sunu", "sunuwar", "sylo",
   "sylotinagri", "syrc", "syriac", "tagalog", "tagb", "tagbanwa", "taile", "taitham", "taiviet",
   "takr", "takri", "tale", "talu", "tamil", "taml", "tang", "tangsa", "tangut", "tavt", "telu",
   "telugu", "tfng", "tglg", "thaa", "thaana", "thai", "tibetan", "tibt", "tifinagh", "tirh",
   "tirhuta", "tnsa", "todhri", "todr", "toto", "tulutigalari", "tutg", "ugar", "ugaritic", "vai",
   "vaii", "vith", "vithkuqi", "wancho", "wara", "warangciti", "wcho", "xpeo", "xsux", "yezi",
   "yezidi", "yi", "yiii", "zanabazarsquare", "zanb", "zinh", "zyyy"]

/-- Versions a character can have been assigned in. -/
def ages : List String :=
  ["1.1", "2.0", "2.1", "3.0", "3.1", "3.2", "4.0", "4.1", "5.0", "5.1", "5.2", "6.0", "6.1",
   "6.2", "6.3", "7.0", "8.0", "9.0", "10.0", "11.0", "12.0", "12.1", "13.0", "14.0", "15.0",
   "15.1", "16.0", "v11", "v20", "v21", "v30", "v31", "v32", "v40", "v41", "v50", "v51", "v52",
   "v60", "v61", "v62", "v63", "v70", "v80", "v90", "v100", "v110", "v120", "v121", "v130",
   "v140", "v150", "v151", "v160"]

/-- Roles of a character in splitting text into user-perceived characters. -/
def graphemeBreaks : List String :=
  ["cn", "control", "cr", "ex", "extend", "l", "lf", "lv", "lvt", "pp", "prepend", "ri",
   "regionalindicator", "sm", "spacingmark", "t", "v", "zwj"]

/-- Roles of a character in splitting text into words. -/
def wordBreaks : List String :=
  ["le", "aletter", "cr", "dq", "doublequote", "extend", "ex", "extendnumlet", "fo", "format",
   "hl", "hebrewletter", "ka", "katakana", "lf", "ml", "midletter", "mn", "midnum", "mb",
   "midnumlet", "nl", "newline", "nu", "numeric", "ri", "regionalindicator", "sq", "singlequote",
   "wsegspace", "zwj"]

/-- Roles of a character in splitting text into sentences. -/
def sentenceBreaks : List String :=
  ["at", "aterm", "cr", "cl", "close", "ex", "extend", "fo", "format", "lf", "lo", "lower", "nu",
   "numeric", "le", "oletter", "sc", "scontinue", "st", "sterm", "se", "sep", "sp", "up", "upper"]

/-- The values of a property that has values. -/
def propertyValues (property : String) : List String :=
  if property = "generalcategory" || property = "gc" then generalCategories
  else if property = "script" || property = "sc" then scripts
  else if property = "scriptextensions" || property = "scx" then scripts
  else if property = "age" then ages
  else if property = "graphemeclusterbreak" || property = "gcb" then graphemeBreaks
  else if property = "wordbreak" || property = "wb" then wordBreaks
  else if property = "sentencebreak" || property = "sb" then sentenceBreaks
  else []

/-- A property name that stands alone. -/
def isPropertyName (name : List Char) : Bool :=
  let n := looseName name
  binaryProperties.contains n || generalCategories.contains n || scripts.contains n

/-- The parts around the first occurrence of a separator. -/
def splitAround (sep : List Char) : List Char → Option (List Char × List Char)
  | [] => none
  | c :: rest =>
    if sep.isPrefixOf (c :: rest) then some ([], (c :: rest).drop sep.length)
    else (splitAround sep rest).map fun (a, b) => (c :: a, b)

/-- What may stand between the braces of a property escape. -/
def isPropertyQuery (query : List Char) : Bool :=
  let halves := (splitAround ['!', '='] query).or
    ((splitAround [':'] query).or (splitAround ['='] query))
  match halves with
  | some (property, value) => (propertyValues (looseName property)).contains (looseName value)
  | none => isPropertyName query

end TypedDocs.Pattern
