/-!
The support code that stands in front of every compiled script: coercions, access, iteration,
filters and escaping.
-/

namespace TemplateEngine.Script

def supportLines : List String :=
  [
    "const stencil = (() => \x7b",
    "  class Safe \x7b",
    "    constructor(s) \x7b this.s = s; \x7d",
    "    toString() \x7b return this.s; \x7d",
    "  \x7d",
    "  function str(v) \x7b",
    "    if (v === null || v === undefined || v === false) return '';",
    "    if (v === true) return '1';",
    "    if (v instanceof Safe) return v.s;",
    "    if (typeof v === 'object') return JSON.stringify(v);",
    "    return String(v);",
    "  \x7d",
    "  function test(v) \x7b",
    "    if (Array.isArray(v)) return v.length > 0;",
    "    if (v && typeof v === 'object' && !(v instanceof Safe)) return Object.keys(v).length > 0;",
    "    return !!v && str(v) !== '0';",
    "  \x7d",
    "  function escape(v) \x7b",
    "    return str(v).replace(/[&<>\"']/g, c => (\x7b",
    "      '&': '&amp;', '<': '&lt;', '>': '&gt;', '\"': '&quot;', \"'\": '&#039;'",
    "    \x7d)[c]);",
    "  \x7d",
    "  function print(v, autoescape) \x7b",
    "    return autoescape && !(v instanceof Safe) ? escape(v) : str(v);",
    "  \x7d",
    "  function attr(o, k) \x7b",
    "    if (o === null || o === undefined) return null;",
    "    const v = o[k];",
    "    return v === undefined ? null : v;",
    "  \x7d",
    "  function iterate(v) \x7b",
    "    if (Array.isArray(v)) return v.map((item, i) => [i, item]);",
    "    if (v && typeof v === 'object') return Object.entries(v);",
    "    return [];",
    "  \x7d",
    "  function loop(i, length) \x7b",
    "    return \x7b index: i + 1, index0: i, first: i === 0, last: i === length - 1, length \x7d;",
    "  \x7d",
    "  function contains(haystack, needle) \x7b",
    "    if (Array.isArray(haystack)) return haystack.some(v => v == needle);",
    "    if (typeof haystack === 'string') return haystack.includes(str(needle));",
    "    if (haystack && typeof haystack === 'object') return str(needle) in haystack;",
    "    return false;",
    "  \x7d",
    "  function length(v) \x7b",
    "    if (Array.isArray(v) || typeof v === 'string') return v.length;",
    "    if (v && typeof v === 'object') return Object.keys(v).length;",
    "    return str(v).length;",
    "  \x7d",
    "  function empty(v) \x7b",
    "    return v === null || v === undefined || v === '' || (Array.isArray(v) && v.length === 0);",
    "  \x7d",
    "  const filters = \x7b",
    "    upper: v => str(v).toUpperCase(),",
    "    lower: v => str(v).toLowerCase(),",
    "    trim: v => str(v).trim(),",
    "    length,",
    "    join: (v, sep = '') => iterate(v).map(([, item]) => str(item)).join(str(sep)),",
    "    default: (v, d = '') => empty(v) ? d : v,",
    "    escape: v => v instanceof Safe ? v : new Safe(escape(v)),",
    "    e: v => v instanceof Safe ? v : new Safe(escape(v)),",
    "    raw: v => new Safe(str(v)),",
    "  \x7d;",
    "  function filter(name, v, args) \x7b",
    "    return filters[name](v, ...args);",
    "  \x7d",
    "  return \x7b str, test, print, attr, iterate, loop, contains, filter \x7d;",
    "\x7d)();"]

def support : String :=
  "\n".intercalate supportLines

end TemplateEngine.Script
