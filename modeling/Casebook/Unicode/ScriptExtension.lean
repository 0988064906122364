import Casebook.Unicode.Script

/-!
# Characters of several scripts

Some characters are used in several scripts, whichever script they count to.
-/

namespace Casebook.Unicode

/-- The characters used in several scripts or in another than their own, with the short names of
these scripts. -/
def sharedCharacters : List (CharSet × List String) :=
  [(.ofRows ["B7"],
    ["avst", "cari", "copt", "dupl", "elba", "geor", "glag", "goth", "grek", "gong", "hani",
     "latn", "lydi", "mahj", "perm", "shaw"]),
   (.ofRows ["2BC"], ["beng", "cyrl", "deva", "latn", "lisu", "thai", "toto"]),
   (.ofRows ["2C7 2C9-2CB 2D9"], ["bopo", "latn"]),
   (.ofRows ["2CD"], ["latn", "lisu"]),
   (.ofRows ["2D7"], ["latn", "thai"]),
   (.ofRows ["300"], ["cher", "copt", "cyrl", "grek", "latn", "perm", "sunu", "tale"]),
   (.ofRows ["301"], ["cher", "cyrl", "grek", "latn", "osge", "sunu", "tale", "todr"]),
   (.ofRows ["302"], ["cher", "cyrl", "latn", "tfng"]),
   (.ofRows ["303"], ["glag", "latn", "sunu", "syrc", "thai"]),
   (.ofRows ["304"],
    ["aghb", "cher", "copt", "cyrl", "goth", "grek", "latn", "osge", "syrc", "tfng", "todr"]),
   (.ofRows ["305"], ["copt", "elba", "glag", "goth", "kana", "latn"]),
   (.ofRows ["306"], ["cyrl", "grek", "latn", "perm", "tfng"]),
   (.ofRows ["307"], ["copt", "dupl", "hebr", "latn", "perm", "syrc", "tale", "tfng", "todr"]),
   (.ofRows ["308"],
    ["armn", "cyrl", "dupl", "goth", "grek", "hebr", "latn", "perm", "syrc", "tale", "tfng"]),
   (.ofRows ["309"], ["latn", "tfng"]),
   (.ofRows ["30A"], ["dupl", "latn", "syrc"]),
   (.ofRows ["30B"], ["cher", "cyrl", "latn", "osge"]),
   (.ofRows ["30C"], ["cher", "latn", "tale"]),
   (.ofRows ["30D 310"], ["latn", "sunu"]),
   (.ofRows ["30E"], ["ethi", "latn"]),
   (.ofRows ["311"], ["cyrl", "latn", "todr"]),
   (.ofRows ["313"], ["grek", "latn", "perm", "todr"]),
   (.ofRows ["323"], ["cher", "dupl", "kana", "latn", "syrc", "tfng"]),
   (.ofRows ["324"], ["cher", "dupl", "latn", "syrc"]),
   (.ofRows ["325 32E"], ["latn", "syrc"]),
   (.ofRows ["32D"], ["latn", "sunu", "syrc"]),
   (.ofRows ["330"], ["cher", "latn", "syrc"]),
   (.ofRows ["331"], ["aghb", "cher", "goth", "latn", "sunu", "syrc", "thai"]),
   (.ofRows ["342 345 1DC0-1DC1"], ["grek"]),
   (.ofRows ["358"], ["latn", "osge"]),
   (.ofRows ["35E"], ["aghb", "latn", "todr"]),
   (.ofRows ["363-36F"], ["latn"]),
   (.ofRows ["374-375"], ["copt", "grek"]),
   (.ofRows ["483"], ["cyrl", "perm"]),
   (.ofRows ["484 487 2E43 A66F"], ["cyrl", "glag"]),
   (.ofRows ["485-486"], ["cyrl", "latn"]),
   (.ofRows ["589"], ["armn", "geor", "glag"]),
   (.ofRows ["60C 61B"], ["arab", "gara", "rohg", "nkoo", "syrc", "thaa", "yezi"]),
   (.ofRows ["61C"], ["arab", "syrc", "thaa"]),
   (.ofRows ["61F"], ["adlm", "arab", "gara", "rohg", "nkoo", "syrc", "thaa", "yezi"]),
   (.ofRows ["640"], ["adlm", "arab", "rohg", "mand", "mani", "ougr", "phlp", "sogd", "syrc"]),
   (.ofRows ["64B-655 670"], ["arab", "syrc"]),
   (.ofRows ["660-669"], ["arab", "thaa", "yezi"]),
   (.ofRows ["6D4"], ["arab", "rohg"]),
   (.ofRows ["951"],
    ["beng", "deva", "gran", "gujr", "guru", "knda", "latn", "mlym", "nand", "newa", "orya",
     "shrd", "taml", "telu", "tirh"]),
   (.ofRows ["952"],
    ["beng", "deva", "gran", "gujr", "guru", "knda", "latn", "mlym", "newa", "orya", "taml",
     "telu", "tirh"]),
   (.ofRows ["964"],
    ["beng", "deva", "dogr", "gran", "gujr", "gong", "guru", "knda", "sind", "mahj", "mlym",
     "gonm", "nand", "onao", "orya", "sinh", "sylo", "takr", "taml", "telu", "tirh"]),
   (.ofRows ["965"],
    ["beng", "deva", "dogr", "gran", "gujr", "gong", "guru", "gukh", "knda", "sind", "limb",
     "mahj", "mlym", "gonm", "nand", "onao", "orya", "sinh", "sylo", "takr", "taml", "telu",
     "tirh"]),
   (.ofRows ["966-96F"], ["deva", "dogr", "kthi", "mahj"]),
   (.ofRows ["9E6-9EF"], ["beng", "cakm", "sylo"]),
   (.ofRows ["A66-A6F"], ["guru", "mult"]),
   (.ofRows ["AE6-AEF"], ["gujr", "khoj"]),
   (.ofRows ["BE6-BF3 11301 11303 1133B-1133C 11FD0-11FD1 11FD3"], ["gran", "taml"]),
   (.ofRows ["CE6-CEF"], ["knda", "nand", "tutg"]),
   (.ofRows ["1040-1049"], ["cakm", "mymr", "tale"]),
   (.ofRows ["10FB"], ["geor", "glag", "latn"]),
   (.ofRows ["16EB-16ED"], ["runr"]),
   (.ofRows ["1735-1736"], ["buhd", "hano", "tglg", "tagb"]),
   (.ofRows ["1802-1803 1805"], ["mong", "phag"]),
   (.ofRows ["1CD0 1CD2"], ["beng", "deva", "gran", "knda"]),
   (.ofRows ["1CD1 1CD4 1CDB 1CDE-1CDF 1CE3-1CE8 1CEC 1CEE-1CF1"], ["deva"]),
   (.ofRows ["1CD3"], ["deva", "gran", "knda"]),
   (.ofRows ["1CD5"], ["beng", "deva", "newa", "telu", "tirh"]),
   (.ofRows ["1CD6"], ["beng", "deva", "telu"]),
   (.ofRows ["1CD7"], ["deva", "newa", "shrd"]),
   (.ofRows ["1CD8"], ["beng", "deva", "newa", "telu"]),
   (.ofRows ["1CD9 1CDC-1CDD 1CE0"], ["deva", "shrd"]),
   (.ofRows ["1CDA"], ["deva", "knda", "mlym", "orya", "taml", "telu"]),
   (.ofRows ["1CE1 1CF5-1CF6"], ["beng", "deva"]),
   (.ofRows ["1CE2"], ["deva", "newa", "tirh"]),
   (.ofRows ["1CE9"], ["deva", "nand", "newa"]),
   (.ofRows ["1CEA"], ["beng", "deva", "shrd"]),
   (.ofRows ["1CEB"], ["deva", "newa"]),
   (.ofRows ["1CED"], ["beng", "deva", "newa", "shrd"]),
   (.ofRows ["1CF2"],
    ["beng", "deva", "gran", "knda", "mlym", "nand", "orya", "sinh", "telu", "tirh", "tutg"]),
   (.ofRows ["1CF3 1CF8-1CF9"], ["deva", "gran"]),
   (.ofRows ["1CF4"], ["deva", "gran", "knda", "tutg"]),
   (.ofRows ["1CF7"], ["beng"]),
   (.ofRows ["1CFA"], ["nand"]),
   (.ofRows ["1DF8"], ["cyrl", "latn", "syrc"]),
   (.ofRows ["1DFA"], ["syrc"]),
   (.ofRows ["202F"], ["latn", "mong", "phag"]),
   (.ofRows ["204F"], ["adlm", "arab"]),
   (.ofRows ["205A"], ["cari", "geor", "glag", "lyci", "hung", "orkh"]),
   (.ofRows ["205D"], ["cari", "grek", "mero", "hung"]),
   (.ofRows ["20F0"], ["deva", "gran", "latn"]),
   (.ofRows ["2E17"], ["copt", "latn"]),
   (.ofRows ["2E30"], ["avst", "orkh"]),
   (.ofRows ["2E31"], ["avst", "cari", "geor", "kthi", "lydi", "hung", "samr"]),
   (.ofRows ["2E3C 1BCA0-1BCA3"], ["dupl"]),
   (.ofRows ["2E41"], ["adlm", "arab", "hung"]),
   (.ofRows ["2FF0-2FFF 31EF"], ["hani", "tang"]),
   (.ofRows ["3001"], ["bopo", "hani", "hang", "hira", "kana", "mong", "yiii"]),
   (.ofRows ["3002"], ["bopo", "hani", "hang", "hira", "kana", "mong", "phag", "yiii"]),
   (.ofRows ["3003 3013 301C-301F 3030 3037 FE45-FE46"], ["bopo", "hani", "hang", "hira", "kana"]),
   (.ofRows
    ["3006 303E-303F 3190-319F 31C0-31E5 3220-3247 3280-32B0 32C0-32CB 32FF 3358-3370 337B-337F",
     "33E0-33FE 1D360-1D371 1F250-1F251"], ["hani"]),
   (.ofRows ["3008-3009"], ["bopo", "hani", "hang", "hira", "kana", "mong", "tibt", "yiii"]),
   (.ofRows ["300A-300B"],
    ["bopo", "hani", "hang", "hira", "kana", "lisu", "mong", "tibt", "yiii"]),
   (.ofRows ["300C-3011 3014-301B 30FB FF61-FF65"],
    ["bopo", "hani", "hang", "hira", "kana", "yiii"]),
   (.ofRows ["302A-302D"], ["bopo", "hani"]),
   (.ofRows ["3031-3035 3099-309C 30A0 30FC FF70 FF9E-FF9F"], ["hira", "kana"]),
   (.ofRows ["303C-303D"], ["hani", "hira", "kana"]),
   (.ofRows ["A700-A707"], ["hani", "latn"]),
   (.ofRows ["A830-A832"],
    ["deva", "dogr", "gujr", "guru", "kthi", "knda", "khoj", "sind", "mahj", "mlym", "modi",
     "nand", "shrd", "takr", "tirh", "tutg"]),
   (.ofRows ["A833-A835"],
    ["deva", "dogr", "gujr", "guru", "kthi", "knda", "khoj", "sind", "mahj", "modi", "nand",
     "shrd", "takr", "tirh", "tutg"]),
   (.ofRows ["A836-A837 A839"],
    ["deva", "dogr", "gujr", "guru", "kthi", "khoj", "sind", "mahj", "modi", "takr", "tirh"]),
   (.ofRows ["A838"],
    ["deva", "dogr", "gujr", "guru", "kthi", "khoj", "sind", "mahj", "modi", "shrd", "takr",
     "tirh"]),
   (.ofRows ["A8F1"], ["beng", "deva", "tutg"]),
   (.ofRows ["A8F3"], ["deva", "taml"]),
   (.ofRows ["A92E"], ["kali", "latn", "mymr"]),
   (.ofRows ["A9CF"], ["bugi", "java"]),
   (.ofRows ["FD3E-FD3F"], ["arab", "nkoo"]),
   (.ofRows ["FDF2 FDFD"], ["arab", "thaa"]),
   (.ofRows ["10100-10101"], ["cprt", "cpmn", "linb"]),
   (.ofRows ["10102 10137-1013F"], ["cprt", "linb"]),
   (.ofRows ["10107-10133"], ["cprt", "lina", "linb"]),
   (.ofRows ["102E0-102FB"], ["arab", "copt"]),
   (.ofRows ["10AF2"], ["mani", "ougr"])]

/-- The characters used in several scripts. -/
def shared : CharSet := .unionAll (sharedCharacters.map Prod.fst)

/-- The characters used in each script: its own, unless they are listed for certain scripts, and
those that are listed for it. -/
def scriptExtensions : List (List String × CharSet) :=
  scripts.map fun (names, own) =>
    let listed := sharedCharacters.filter fun entry => entry.2.any names.contains
    (names, (own.diff shared).union (.unionAll (listed.map Prod.fst)))

end Casebook.Unicode
