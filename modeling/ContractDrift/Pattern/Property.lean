import ContractDrift.Text.Blank

/-!
# Names of character properties

A pattern may ask for the characters with a Unicode property: a truth-valued property, a general
category or a script by its name alone, or any of the properties that have values by name and
value. Names are compared without regard to letter case, blanks, underscores and hyphens, and a
leading `is` does not count.

* `CharacterProperty.normalized` — a name as it is compared.
* `CharacterProperty.isNamed`, `CharacterProperty.isValue` — whether there is such a property.
-/

namespace ContractDrift.CharacterProperty

/-- The words of a text. -/
def words (s : String) : List String := (Text.fields ' ' s.toList).map String.ofList

/-- The truth-valued properties, each by its short and its long name. -/
def truths : List String := words
  ("ahex asciihexdigit alpha alphabetic bidic bidicontrol ci caseignorable cased cwcf " ++
    "changeswhencasefolded cwcm changeswhencasemapped cwl changeswhenlowercased cwt " ++
    "changeswhentitlecased cwu changeswhenuppercased dash di defaultignorablecodepoint dep " ++
    "deprecated dia diacritic emoji ecomp emojicomponent emod emojimodifier ebase " ++
    "emojimodifierbase epres emojipresentation extpict extendedpictographic ext extender grbase " ++
    "graphemebase grext graphemeextend grlink graphemelink hex hexdigit hyphen idsb " ++
    "idsbinaryoperator idst idstrinaryoperator idsu idsunaryoperator idc idcontinue ids idstart " ++
    "idcompatmathcontinue idcompatmathstart ideo ideographic joinc joincontrol loe " ++
    "logicalorderexception lower lowercase math mcm modifiercombiningmark nchar " ++
    "noncharactercodepoint oalpha otheralphabetic odi otherdefaultignorablecodepoint ogrext " ++
    "othergraphemeextend oidc otheridcontinue oids otheridstart olower otherlowercase omath " ++
    "othermath oupper otheruppercase patsyn patternsyntax patws patternwhitespace pcm " ++
    "prependedconcatenationmark qmark quotationmark radical ri regionalindicator sterm " ++
    "sentenceterminal sd softdotted term terminalpunctuation uideo unifiedideograph upper " ++
    "uppercase vs variationselector space whitespace wspace xidc xidcontinue xids xidstart")

/-- The general categories, and the three sets that are counted among them. -/
def categories : List String := words
  ("c other cc control cntrl cf format cn unassigned co privateuse l letter lc casedletter ll " ++
    "lowercaseletter lm modifierletter lo otherletter lt titlecaseletter lu uppercaseletter m " ++
    "mark combiningmark mc spacingmark me enclosingmark mn nonspacingmark n number nd " ++
    "decimalnumber digit nl letternumber no othernumber p punctuation punct pc " ++
    "connectorpunctuation pd dashpunctuation pe closepunctuation pf finalpunctuation pi " ++
    "initialpunctuation po otherpunctuation ps openpunctuation s symbol sc currencysymbol sk " ++
    "modifiersymbol sm mathsymbol so othersymbol z separator zl lineseparator zp " ++
    "paragraphseparator zs spaceseparator any assigned ascii")

/-- The scripts, each by its name and its code. -/
def scripts : List String := words
  ("adlam adlm caucasianalbanian aghb ahom arabic arab imperialaramaic armi armenian armn avestan " ++
    "avst balinese bali bamum bamu bassavah bass batak batk bengali beng bhaiksuki bhks bopomofo " ++
    "bopo brahmi brah braille brai buginese bugi buhid buhd chakma cakm canadianaboriginal cans " ++
    "carian cari cham cherokee cher chorasmian chrs coptic copt qaac cyprominoan cpmn cypriot " ++
    "cprt cyrillic cyrl devanagari deva divesakuru diak dogra dogr deseret dsrt duployan dupl " ++
    "egyptianhieroglyphs egyp elbasan elba elymaic elym ethiopic ethi garay gara georgian geor " ++
    "glagolitic glag gunjalagondi gong masaramgondi gonm gothic goth grantha gran greek grek " ++
    "gujarati gujr gurungkhema gukh gurmukhi guru hangul hang han hani hanunoo hano hatran hatr " ++
    "hebrew hebr hiragana hira anatolianhieroglyphs hluw pahawhhmong hmng nyiakengpuachuehmong " ++
    "hmnp oldhungarian hung olditalic ital javanese java kayahli kali katakana kana kawi " ++
    "kharoshthi khar khmer khmr khojki khoj khitansmallscript kits kannada knda kiratrai krai " ++
    "kaithi kthi taitham lana lao laoo latin latn lepcha lepc limbu limb lineara lina linearb " ++
    "linb lisu lycian lyci lydian lydi mahajani mahj makasar maka mandaic mand manichaean mani " ++
    "marchen marc medefaidrin medf mendekikakui mend meroiticcursive merc meroitichieroglyphs " ++
    "mero malayalam mlym modi mongolian mong mro mroo meeteimayek mtei multani mult myanmar mymr " ++
    "nagmundari nagm nandinagari nand oldnortharabian narb nabataean nbat newa nko nkoo nushu " ++
    "nshu ogham ogam olchiki olck olonal onao oldturkic orkh oriya orya osage osge osmanya osma " ++
    "olduyghur ougr palmyrene palm paucinhau pauc oldpermic perm phagspa phag " ++
    "inscriptionalpahlavi phli psalterpahlavi phlp phoenician phnx miao plrd " ++
    "inscriptionalparthian prti rejang rjng hanifirohingya rohg runic runr samaritan samr " ++
    "oldsoutharabian sarb saurashtra saur signwriting sgnw shavian shaw sharada shrd siddham " ++
    "sidd khudawadi sind sinhala sinh sogdian sogd oldsogdian sogo sorasompeng sora soyombo soyo " ++
    "sundanese sund sunuwar sunu sylotinagri sylo syriac syrc tagbanwa tagb takri takr taile " ++
    "tale newtailue talu tamil taml tangut tang taiviet tavt telugu telu tifinagh tfng tagalog " ++
    "tglg thaana thaa thai tibetan tibt tirhuta tirh tangsa tnsa todhri todr toto tulutigalari " ++
    "tutg ugaritic ugar vai vaii vithkuqi vith warangciti wara wancho wcho oldpersian xpeo " ++
    "cuneiform xsux yezidi yezi yi yiii zanabazarsquare zanb inherited zinh qaai common zyyy")

/-- The versions in which characters were added. -/
def ages : List String := words
  ("1.1 v11 2.0 v20 2.1 v21 3.0 v30 3.1 v31 3.2 v32 4.0 v40 4.1 v41 5.0 v50 5.1 v51 5.2 v52 6.0 " ++
    "v60 6.1 v61 6.2 v62 6.3 v63 7.0 v70 8.0 v80 9.0 v90 10.0 v100 11.0 v110 12.0 v120 12.1 v121 " ++
    "13.0 v130 14.0 v140 15.0 v150 15.1 v151 16.0 v160")

/-- The values of a property that has values, by the names of the property. -/
def values : List (List String × List String) :=
  [(["gc", "category", "generalcategory"], categories),
    (["sc", "script"], scripts),
    (["scx", "scriptextensions"], scripts),
    (["age"], ages),
    (["gcb", "graphemeclusterbreak"], words
      ("cn control cr ex extend l lf lv lvt pp prepend ri regionalindicator sm spacingmark t v " ++
        "zwj")),
    (["wb", "wordbreak"], words
      ("le aletter cr dq doublequote extend ex extendnumlet fo format hl hebrewletter ka " ++
        "katakana lf ml midletter mn midnum mb midnumlet nl newline nu numeric ri " ++
        "regionalindicator sq singlequote wsegspace zwj")),
    (["sb", "sentencebreak"], words
      ("at aterm cl close cr ex extend fo format lf lo lower nu numeric le oletter sc scontinue " ++
        "se sep sp st sterm up upper"))]

/-- A name as it is compared: its ASCII characters in lower case, without blanks, underscores,
hyphens and a leading `is`. One name would lose its meaning by that and keeps it. -/
def normalized (name : List Char) : String :=
  let bare := (Text.dropLead? ['i', 's'] (name.map Text.lowerChar)).getD (name.map Text.lowerChar)
  let kept := bare.filter fun c => c.toNat < 0x80 && c ≠ ' ' && c ≠ '_' && c ≠ '-'
  if bare.length < name.length && kept = ['c'] then "isc" else String.ofList kept

/-- Whether a name alone is that of a property. -/
def isNamed (name : List Char) : Bool :=
  let n := normalized name
  truths.contains n || categories.contains n || scripts.contains n

/-- Whether a property has a value. -/
def isValue (name value : List Char) : Bool :=
  values.any fun e => e.1.contains (normalized name) && e.2.contains (normalized value)

end ContractDrift.CharacterProperty
